import WebAtlas.Proofs.FileSystem.Enclosed
import WebAtlas.Proofs.FileSystem.SelfLink
import WebAtlas.Proofs.Project.Containment
import WebAtlas.Proofs.Route.Scan
import WebAtlas.Proofs.Component.Scan

/-! # What an analysis reports can be viewed

The paths in an analysis name files below the project root. Given back to the viewer they show the text
that was examined, as long as the links of the project stay inside it and none of them lies so deep that
it cannot be examined by its own location.
-/
namespace WebAtlas
open FileSystem FileView
variable {fs : FileSystem} {project : String} {site : Location}

/-- Every link followed to open a file lies at a location that fits. -/
def FileSystem.Short (fs : FileSystem) (file : Path) : Prop :=
  ∀ loc entry links, fs.Leads (fs.origin file) file.segments loc entry links → ∀ l ∈ links, Fits l

/-- The file that a reported path names, read from the project root. -/
def reportedFile (root : Path) (reported : String) : Path := root.join (Path.parse reported)

/-- The file at a reported path was examined as `text`, and a view of it shows that text when the links
on the way to it fit. -/
structure Shown (fs : FileSystem) (project : String) (root : Path) (reported text : String) : Prop where
  examined : Source.read? fs (reportedFile root reported) = some text
  viewed : fs.Short (reportedFile root reported) → ∃ view,
    FileView.read fs project reported = .ok view ∧ view.content = text ∧
    view.lines = Source.lineCount text ∧ view.filePath = (reportedFile root reported).text

theorem reportedFile_plain {root : Path} {names : List String} (hn : Path.Plain names) :
    reportedFile root ("/".intercalate names) = root.descend names := by
  rw [reportedFile, Path.parse_plain hn]
  rfl

theorem Source.read?_of_status {file : Path} {loc : Location} {bytes : List UInt8}
    (h : fs.status file = .ok (loc,.file bytes)) : read? fs file = some (textOf bytes) := by
  unfold read?
  rw [read_of_status h]

section Shown
variable (hproject : fs.resolve (Path.parse project) = .ok (Path.mk .root site)) (hsite : fs.IsReal site)
  (hinside : fs.Enclosed site)
include hsite hinside

/-- A file that names lead to from a real directory lies below it. -/
theorem isBelow_of_leads {names : List String} {loc : Location} {bytes : List UInt8}
    {links : List Location} (hn : Path.Plain names)
    (hl : fs.Leads [] (site ++ names) loc (.file bytes) links) (hlimit : links.length ≤ linkLimit) :
    (Path.mk .root site).isBelow (Path.mk .root loc) = true := by
  have hentry : fs.entry? loc = some (.file bytes) := (hl.real isReal_nil).2.1
  have hne : names ≠ [] := by
    rintro rfl
    rw [List.append_nil] at hl
    obtain ⟨-,h,-⟩ := hl.deterministic (@leads_of_isReal fs [] site hsite)
    cases h
  obtain ⟨mid,before,later,hmid,hrest,rfl⟩ := hl.split hne
  obtain ⟨rfl,-,rfl⟩ := hmid.deterministic (@leads_of_isReal fs [] site hsite)
  obtain ⟨rest,rfl⟩ := hinside.prefix_of_leads hn hrest hlimit
  refine Path.isBelow_iff.mpr ⟨rfl,rest,?_,rfl⟩
  rintro rfl
  rw [List.append_nil, hsite.entry] at hentry
  cases hentry

include hproject

/-- A file below the project root is shown by its relative path. -/
theorem shown_descend {names : List String} {text : String} (hn : Path.Plain names)
    (hread : Source.read? fs ((Path.mk .root site).descend names) = some text) :
    Shown fs project (Path.mk .root site) ("/".intercalate names) text := by
  have hfile := @reportedFile_plain (Path.mk .root site) names hn
  refine ⟨by rwa [hfile],fun hshort => ?_⟩
  rw [hfile] at hshort
  obtain ⟨bytes,hbytes,rfl⟩ := Source.read?_eq_some hread
  obtain ⟨loc,hstatus⟩ := status_of_read hbytes
  obtain ⟨-,links,hlimit,hl⟩ := status_eq_ok_iff.mp hstatus
  have hfits : ∀ l ∈ links, Fits l := hshort loc _ links hl
  have hbelow := isBelow_of_leads hsite hinside hn hl hlimit
  have hresolve : fs.resolve ((Path.mk .root site).descend names) = .ok (Path.mk .root loc) :=
    resolve_of_leads rfl hl hfits
  have hrequest : FileView.requestedPath (Path.mk .root site) ("/".intercalate names) =
      (Path.mk .root site).descend names := by
    have hjoin : (Path.mk .root site).join (Path.parse ("/".intercalate names)) =
        (Path.mk .root site).descend names := hfile
    rw [FileView.requestedPath, hjoin]
    exact Path.normalize_of_forall_ne
      (Path.descend_ne_dotdot (fun s hs => (hsite.names s hs).2.1) hn)
  have hwithin : (Path.mk .root site).Within
      (FileView.requestedPath (Path.mk .root site) ("/".intercalate names)) := by
    rw [hrequest]
    exact ⟨rfl,List.prefix_append ..⟩
  refine ⟨FileView.ofFile ((Path.mk .root site).descend names) bytes,?_,rfl,rfl,by rw [hfile]; rfl⟩
  rw [FileView.read_of_within hproject hwithin, hrequest, FileView.candidates, List.cons_append,
    firstFile?_cons hstatus]
  simp only [hresolve, hbelow, Bool.true_eq_false, if_false, hbytes]

variable (hfs : fs.WellFormed) (hslash : fs.Slashless)
include hfs hslash

/-- A file that walks below some directories of the project meet is the one that its relative path
names, and is shown by it. -/
theorem shown_filesMet {policy : WalkPolicy} {accepts : Path → Bool} {starts : List (List String)}
    {file : Path} {text : String} (hstarts : ∀ segments ∈ starts, Path.Plain segments)
    (hfile : file ∈ fs.filesMet policy accepts (Path.mk .root site) starts)
    (hread : Source.read? fs file = some text) :
    reportedFile (Path.mk .root site) (Source.relativeName fs (Path.mk .root site) file) = file ∧
    Shown fs project (Path.mk .root site) (Source.relativeName fs (Path.mk .root site) file) text := by
  obtain ⟨names,hne,hn,rfl⟩ := hfs.filesMet_named hslash hstarts hfile
  rw [Source.relativeName_descend rfl (fun s hs => (hsite.names s hs).2.1) hn hne]
  exact ⟨reportedFile_plain hn,shown_descend hproject hsite hinside hn hread⟩

end Shown

theorem Schema.places_plain : ∀ names ∈ places, Path.Plain names ∧ names ≠ [] := by decide

/-- A schema report is made from the text of a file at one of the conventional places. -/
theorem Schema.scan_eq_some {keywords : List String} {stamp : String} {path root : Path}
    {report : SchemaReport} (hroot : fs.resolve path = .ok root)
    (h : (scan fs keywords stamp path).outcome.1 = .ok (some report)) :
    ∃ names ∈ places, ∃ text, Source.read? fs (root.descend names) = some text ∧
      report = reportOn keywords stamp fs root (root.descend names) text := by
  rw [scan_outcome, hroot] at h
  dsimp only at h
  split at h
  · cases h
  · cases h
  · rename_i file hfile
    obtain ⟨text,hread,rfl⟩ := Option.map_eq_some_iff.mp (Except.ok.inj h)
    obtain ⟨names,hnames,rfl⟩ := List.mem_map.mp (firstFile?_eq_some hfile).1
    exact ⟨names,hnames,text,hread,rfl⟩

namespace Analysis
variable {room : Nat} {settings : Settings} {options : Options} {stamp : String}
  {analysis : Analysis CodePoints}

/-- Every path that an analysis reports shows the text that its record was made from. -/
theorem reported_shown (hfs : fs.WellFormed) (hslash : fs.Slashless)
    (hproject : fs.resolve (Path.parse project) = .ok (Path.mk .root site)) (hsite : fs.IsReal site)
    (hinside : fs.Enclosed site)
    (h : (ofPath fs room settings options stamp (some project)).outcome.1 = .ok analysis) :
    (∀ report, analysis.routes = some report → ∀ route ∈ report.routes, ∃ text,
      route ∈ Route.ofHandler route.sourceFile text ∧
      Shown fs project (Path.mk .root site) route.sourceFile text) ∧
    (∀ report, analysis.components = some report → ∀ component ∈ report.components, ∃ text,
      component = Component.ofText (options.aliasPrefix.getD settings.aliasPrefix)
        (reportedFile (Path.mk .root site) component.path).stem component.path text ∧
      component.lineCount = Source.lineCount text ∧
      Shown fs project (Path.mk .root site) component.path text) ∧
    (∀ report, analysis.schema = some report → ∃ text,
      report = Schema.reportOn settings.entityKeywordList stamp fs (Path.mk .root site)
        (reportedFile (Path.mk .root site) report.schemaFile) text ∧
      Shown fs project (Path.mk .root site) report.schemaFile text) := by
  obtain ⟨name,hname,hrun⟩ := ofPath_eq_ok hproject h
  have hroot : fs.resolve (Path.mk .root site) = .ok (Path.mk .root site) :=
    resolve_of_leads rfl (@leads_of_isReal fs [] site hsite) fun l hl => absurd hl List.not_mem_nil
  have hparts := hrun.symm.trans (run_outcome hname)
  cases hparts
  refine ⟨?_,?_,?_⟩
  · intro report hreport route hroute
    obtain ⟨hreport,-⟩ := Option.filter_eq_some_iff.mp hreport
    obtain ⟨-,rfl⟩ := (Route.scan_eq_ok_iff hroot).mp (toOption_eq_some hreport)
    obtain ⟨file,hfile,hroute⟩ := List.mem_flatMap.mp (List.mem_mergeSort.mp hroute)
    obtain ⟨text,hread,hmade⟩ := Route.mem_ofFile.mp hroute
    have hshown :=
      (shown_filesMet hproject hsite hinside hfs hslash Route.roots_plain hfile hread).2
    rw [← Route.sourceFile_of_mem hroute] at hmade hshown
    exact ⟨text,hmade,hshown⟩
  · intro report hreport component hcomponent
    obtain ⟨hreport,-⟩ := Option.filter_eq_some_iff.mp hreport
    obtain ⟨-,rfl⟩ := (Component.scanUnder_eq_ok_iff hroot).mp (toOption_eq_some hreport)
    obtain ⟨file,hfile,hmade⟩ := List.mem_filterMap.mp (List.mem_mergeSort.mp hcomponent)
    obtain ⟨text,hread,rfl⟩ := Component.mem_ofFile?.mp hmade
    obtain ⟨hnamed,hshown⟩ :=
      shown_filesMet hproject hsite hinside hfs hslash Component.roots_plain hfile hread
    refine ⟨text,?_,rfl,hshown⟩
    change _ = Component.ofText _ (reportedFile _ (Source.relativeName fs _ file)).stem _ text
    rw [hnamed]
    rfl
  · intro report hreport
    obtain ⟨hreport,-⟩ := Option.filter_eq_some_iff.mp hreport
    have hscan := toOption_eq_some (Option.join_eq_some_iff.mp hreport)
    obtain ⟨names,hnames,text,hread,rfl⟩ := Schema.scan_eq_some hroot hscan
    obtain ⟨hplain,hne⟩ := Schema.places_plain names hnames
    have hname : (Schema.reportOn settings.entityKeywordList stamp fs (Path.mk .root site)
        ((Path.mk .root site).descend names) text).schemaFile = "/".intercalate names :=
      Source.relativeName_descend rfl (fun s hs => (hsite.names s hs).2.1) hplain hne
    refine ⟨text,?_,?_⟩
    · rw [hname, reportedFile_plain hplain]
    · rw [hname]
      exact shown_descend hproject hsite hinside hplain hread

/-- An analysis holds the report on the schema file that is found. -/
theorem ofPath_schema {root file : Path} {name : CodePoints} {text : String}
    (hvalid : Project.validate fs (some project) = .ok root)
    (hroot : fs.resolve root = .ok root) (hname : Project.name fs room root = .ok name)
    (hfile : Schema.file? fs root = .ok (some file)) (hread : Source.read? fs file = some text)
    (hne : (Schema.parse settings.entityKeywordList text).isEmpty = false) :
    ∃ analysis, (ofPath fs room settings options stamp (some project)).outcome.1 = .ok analysis ∧
      analysis.schema =
        some (Schema.reportOn settings.entityKeywordList stamp fs root file text) := by
  have hscan : (Schema.scan fs settings.entityKeywordList stamp root).outcome.1 =
      .ok (some (Schema.reportOn settings.entityKeywordList stamp fs root file text)) := by
    rw [Schema.scan_outcome, hroot]
    dsimp only
    rw [hfile]
    dsimp only
    rw [hread]
    rfl
  unfold ofPath
  rw [hvalid]
  refine ⟨_,run_outcome hname,?_⟩
  dsimp only
  rw [hscan]
  refine Option.filter_eq_some_iff.mpr ⟨rfl,?_⟩
  rw [Schema.reportOn, hne]
  rfl

/-- A project `p` whose schema file is a link to a file of its own. -/
def linkedSchema : FileSystem where
  entries := [(["p"],.directory), (["p","models"],.directory),
    (["p","models","blog.prisma"],.file schemaBytes), (["p","schema.prisma"],.link "models/blog.prisma")]
  workingDirectory := []
where
  schemaBytes : List UInt8 := "model A \x7b\n\x7d".toList.map fun c => c.toNat.toUInt8

theorem linkedSchema_leads : linkedSchema.Leads ["p"] ["schema.prisma"] ["p","models","blog.prisma"]
    (.file linkedSchema.schemaBytes) [["p","schema.prisma"]] := by
  refine .link (by decide) rfl ?_
  exact .enter (by decide) rfl (.file (by decide) rfl)

theorem linkedSchema_enclosed : linkedSchema.Enclosed ["p"] := by
  intro dir name target hdir he loc entry links _ hl
  have hmem := mem_entries_of_eq he (by simp)
  simp only [linkedSchema, List.mem_cons, Prod.mk.injEq, reduceCtorEq, and_false, false_or,
    List.not_mem_nil, or_false, Entry.link.injEq] at hmem
  obtain ⟨hloc,rfl⟩ := hmem
  obtain ⟨rfl,hname⟩ := List.append_inj' (hloc.trans (by rfl : _ = ["p"] ++ ["schema.prisma"])) rfl
  cases hname
  obtain ⟨rfl,-⟩ := hl.deterministic linkedSchema_leads
  decide

/-- The link is examined, reported by its own path and shown with the text of the file it leads to. -/
theorem reported_shown_linkedSchema : linkedSchema.WellFormed ∧ linkedSchema.Slashless ∧
    linkedSchema.resolve (Path.parse "/p") = .ok (Path.mk .root ["p"]) ∧ linkedSchema.IsReal ["p"] ∧
    linkedSchema.Enclosed ["p"] ∧
    ∃ analysis report, (ofPath linkedSchema 900 {} {} "" (some "/p")).outcome.1 = .ok analysis ∧
      analysis.schema = some report ∧ report.schemaFile = "schema.prisma" ∧
      ∃ view, FileView.read linkedSchema "/p" report.schemaFile = .ok view ∧
        view.content = "model A \x7b\n\x7d" := by
  have hfs : linkedSchema.WellFormed := wellFormed_of_getLast? (by decide) (by decide)
  have hslash : linkedSchema.Slashless := by
    unfold Slashless
    decide
  have hproject : linkedSchema.resolve (Path.parse "/p") = .ok (Path.mk .root ["p"]) := rfl
  have hsite : linkedSchema.IsReal ["p"] := isReal_nil.snoc (by decide) rfl
  have hread : Source.read? linkedSchema (Path.mk .root ["p","schema.prisma"]) =
      some "model A \x7b\n\x7d" := rfl
  obtain ⟨analysis,hrun,hschema⟩ := @ofPath_schema linkedSchema "/p" 900 {} {} "" (Path.mk .root ["p"])
    (Path.mk .root ["p","schema.prisma"]) "p" "model A \x7b\n\x7d" rfl rfl rfl rfl hread (by decide +kernel)
  have hname : (Schema.reportOn ({} : Settings).entityKeywordList "" linkedSchema (Path.mk .root ["p"])
      (Path.mk .root ["p","schema.prisma"]) "model A \x7b\n\x7d").schemaFile = "schema.prisma" := by
    decide +kernel
  obtain ⟨text,-,hshown⟩ := (@reported_shown linkedSchema "/p" ["p"] 900 {} {} "" analysis hfs hslash
    hproject hsite linkedSchema_enclosed hrun).2.2 _ hschema
  rw [hname] at hshown
  have hshort : linkedSchema.Short (reportedFile (Path.mk .root ["p"]) "schema.prisma") := by
    intro loc entry links hl
    have hp : linkedSchema.Leads [] ["p"] ["p"] .directory [] := @leads_of_isReal linkedSchema [] _ hsite
    obtain ⟨-,-,rfl⟩ := hl.deterministic (hp.append rfl linkedSchema_leads)
    decide
  obtain ⟨view,hview,hcontent,-⟩ := hshown.viewed hshort
  have htext : text = "model A \x7b\n\x7d" := Option.some.inj (hshown.examined.symm.trans hread)
  exact ⟨hfs,hslash,hproject,hsite,linkedSchema_enclosed,analysis,_,hrun,hschema,hname,view,
    hname ▸ hview,hcontent.trans htext⟩

/-- The way of the schema file's link, from the project root: over a link that lies too deep to be
examined, and one step back up from where it leads. -/
def detourNames : List String := "s" :: List.replicate 9 longName ++ ["..","x"]

/-- A project `p` of sixteen directories inside one another, the link `s` being a short way to the
eighth. The innermost holds a link to the directory `d` and a link `x` to itself. -/
def detour : FileSystem where
  entries := [(["p"],.directory), (["p","d"],.directory), (["p","x"],.file linkedSchema.schemaBytes),
    (["p","s"],.link ("/".intercalate (List.replicate 8 longName))),
    (["p","schema.prisma"],.link ("/".intercalate detourNames)),
    ("p" :: List.replicate 16 longName ++ [longName],.link "/p/d"),
    ("p" :: List.replicate 16 longName ++ ["x"],.link "x")] ++
    (List.range 16).map fun k => ("p" :: List.replicate (k + 1) longName,.directory)
  workingDirectory := []

theorem detour_chain {loc : Location}
    (h : loc ∈ (List.range 16).map fun k => "p" :: List.replicate (k + 1) longName) :
    2 ≤ loc.length ∧ loc.length ≤ 17 ∧ loc.getLast? = some longName := by
  obtain ⟨k,hk,rfl⟩ := List.mem_map.mp h
  have hbound := List.mem_range.mp hk
  refine ⟨by simp,by simpa using by omega,?_⟩
  rw [List.replicate_succ', ← List.cons_append, List.getLast?_concat]

theorem detour_names : ∀ e ∈ detour.entries, e.1 ≠ [] ∧
    ∀ name ∈ e.1, name = longName ∨ name ∈ ["p","d","x","s","schema.prisma"] := by
  intro e he
  rcases List.mem_append.mp he with he | he
  · simp only [List.mem_cons, List.not_mem_nil, or_false] at he
    rcases he with rfl | rfl | rfl | rfl | rfl | rfl | rfl <;> simp
  · obtain ⟨k,-,rfl⟩ := List.mem_map.mp he
    simp

theorem detour_locations : detour.entries.map (·.1) =
    [["p"],["p","d"],["p","x"],["p","s"],["p","schema.prisma"],
      "p" :: List.replicate 16 longName ++ [longName],"p" :: List.replicate 16 longName ++ ["x"]] ++
    (List.range 16).map fun k => "p" :: List.replicate (k + 1) longName := by
  rw [detour, List.map_append, List.map_map]
  rfl

theorem detour_distinct : (detour.entries.map (·.1)).Nodup := by
  have hx : longName ≠ "x" := longName_ne (by decide)
  rw [detour_locations, List.nodup_append]
  refine ⟨by simp [hx],?_,?_⟩
  · refine List.nodup_range.map fun j k h => ?_
    have hlength := congrArg List.length h
    simp only [List.length_cons, List.length_replicate] at hlength
    omega
  · rintro loc hloc _ hchain rfl
    obtain ⟨hshort,hlong,hlast⟩ := detour_chain hchain
    simp only [List.mem_cons, List.not_mem_nil, or_false] at hloc
    rcases hloc with rfl | rfl | rfl | rfl | rfl | rfl | rfl
    · simp at hshort
    · exact longName_ne (by decide) (Option.some.inj hlast).symm
    · exact longName_ne (by decide) (Option.some.inj hlast).symm
    · exact longName_ne (by decide) (Option.some.inj hlast).symm
    · exact longName_ne (by decide) (Option.some.inj hlast).symm
    · simp at hlong
    · simp at hlong

theorem detour_wellFormed : detour.WellFormed := by
  have hnames : ∀ name ∈ ["p","d","x","s","schema.prisma"], Names name := by decide
  refine ⟨detour_distinct,fun e he => ?_⟩
  obtain ⟨hne,hmem⟩ := detour_names e he
  refine ⟨e.1.dropLast,e.1.getLast hne,(List.dropLast_append_getLast hne).symm,?_⟩
  rcases hmem _ (List.getLast_mem hne) with h | h
  · rw [h]
    exact names_longName
  · exact hnames _ h

theorem detour_slashless : detour.Slashless := by
  have hnames : ∀ name ∈ ["p","d","x","s","schema.prisma"], '/' ∉ name.toList := by decide
  intro e he name hname
  rcases (detour_names e he).2 name hname with rfl | h
  · exact slash_not_mem_longName
  · exact hnames name h

theorem detour_entry {loc : Location} {entry : Entry} (h : (loc,entry) ∈ detour.entries) :
    detour.entry? loc = some entry :=
  detour_wellFormed.entry?_of_mem h

theorem detour_project : detour.IsReal ["p"] :=
  isReal_nil.snoc (by decide) (detour_entry (List.mem_append_left _ (by simp)))

theorem detour_isReal : detour.IsReal ("p" :: List.replicate 16 longName) := by
  refine isReal_replicate detour_project names_longName fun k hk => detour_entry ?_
  exact List.mem_append_right _ (List.mem_map.mpr ⟨k,List.mem_range.mpr hk,rfl⟩)

theorem detour_links :
    detour.entry? (["p"] ++ ["s"]) = some (.link ("/".intercalate (List.replicate 8 longName))) ∧
    detour.entry? (["p"] ++ ["schema.prisma"]) = some (.link ("/".intercalate detourNames)) ∧
    detour.entry? ("p" :: List.replicate 16 longName ++ [longName]) = some (.link "/p/d") ∧
    detour.entry? ("p" :: List.replicate 16 longName ++ ["x"]) = some (.link "x") := by
  refine ⟨detour_entry ?_,detour_entry ?_,detour_entry ?_,detour_entry ?_⟩
  · exact List.mem_append_left _ (by simp)
  · exact List.mem_append_left _ (by simp)
  · exact List.mem_append_left _ (by simp)
  · exact List.mem_append_left _ (by simp)

theorem longNames_written {n : String} (h : n = longName ∨ n ∈ ["s","..","x"]) :
    '/' ∉ n.toList ∧ Path.isVoid n = false := by
  have hshort : ∀ n ∈ ["s","..","x"], '/' ∉ n.toList ∧ Path.isVoid n = false := by decide
  rcases h with rfl | h
  · exact ⟨slash_not_mem_longName,names_longName.1⟩
  · exact hshort n h

theorem short_written : ∀ n ∈ List.replicate 8 longName, '/' ∉ n.toList ∧ Path.isVoid n = false :=
  fun _ hn => longNames_written (.inl (List.eq_of_mem_replicate hn))

theorem detourNames_written : ∀ n ∈ detourNames, '/' ∉ n.toList ∧ Path.isVoid n = false := by
  intro n hn
  apply longNames_written
  rcases List.mem_append.mp hn with hn | hn
  · rcases List.mem_cons.mp hn with rfl | hn
    · exact .inr List.mem_cons_self
    · exact .inl (List.eq_of_mem_replicate hn)
  · exact .inr (List.mem_cons_of_mem _ hn)

theorem detour_deep : detour.Leads ("p" :: List.replicate 16 longName) [longName] ["p","d"] .directory
    ["p" :: List.replicate 16 longName ++ [longName]] := by
  refine .link names_longName detour_links.2.2.1 ?_
  change detour.Leads [] ["","p","d"] _ _ _
  refine .void (by decide) (.enter (by decide) detour_project.entry ?_)
  exact .enter (by decide) (detour_entry (List.mem_append_left _ (by simp))) (.here _)

theorem detour_short : detour.Leads ["p"] ("s" :: List.replicate 8 longName)
    ("p" :: List.replicate 16 longName) .directory [["p","s"]] := by
  refine Leads.link_names short_written (by decide) (by decide) detour_links.1 ?_
  rw [List.replicate_append_replicate]
  exact leads_of_isReal detour_isReal

theorem detour_way : detour.Leads ["p"] detourNames ["p","x"] (.file linkedSchema.schemaBytes)
    [["p","s"],"p" :: List.replicate 16 longName ++ [longName]] := by
  have hx : detour.entry? (["p"] ++ ["x"]) = some (.file linkedSchema.schemaBytes) :=
    detour_entry (List.mem_append_left _ (by simp))
  have hback : detour.Leads ["p","d"] ["..","x"] ["p","x"] (.file linkedSchema.schemaBytes) [] :=
    .up (.file (by decide) hx)
  exact (detour_short.append rfl detour_deep).append rfl hback

theorem detour_schema : detour.Leads ["p"] ["schema.prisma"] ["p","x"] (.file linkedSchema.schemaBytes)
    [["p","schema.prisma"],["p","s"],"p" :: List.replicate 16 longName ++ [longName]] := by
  refine Leads.link_names detourNames_written (by decide) (by decide) detour_links.2.1 ?_
  rw [List.append_nil]
  exact detour_way

theorem detour_self : detour.SelfLink ("p" :: List.replicate 16 longName) "x" where
  real := detour_isReal
  named := by decide
  entry := detour_links.2.2.2
  pieces := by decide
  relative := by
    unfold linkOrigin
    rw [if_neg (by decide)]

/-- The link that lies too deep, and the link to itself that does not. -/
theorem detour_depth : ¬ Fits ("p" :: List.replicate 16 longName ++ [longName]) ∧
    Fits ("p" :: List.replicate 16 longName ++ ["x"]) := by
  have hp : "p".utf8ByteSize = 1 := rfl
  have hx : "x".utf8ByteSize = 1 := rfl
  constructor
  · rw [Fits, List.cons_append, Path.utf8ByteSize_text]
    simp [utf8ByteSize_longName, hp, pathLimit]
  · rw [Fits, List.cons_append, Path.utf8ByteSize_text]
    simp [utf8ByteSize_longName, hp, hx, pathLimit]

theorem detour_half : detour.IsReal ("p" :: List.replicate 8 longName) :=
  detour_isReal.of_prefix ⟨List.replicate 8 longName,by
    rw [List.cons_append, List.replicate_append_replicate]⟩

theorem detour_enclosed : detour.Enclosed ["p"] := by
  intro dir name target hdir he loc entry links _ hl
  have hs : detour.Leads ["p"] ["s"] ("p" :: List.replicate 8 longName) .directory [["p","s"]] := by
    refine Leads.link_names short_written (by decide) (by decide) detour_links.1 ?_
    rw [List.append_nil]
    exact leads_of_isReal detour_half
  have hmem := mem_entries_of_eq he (by simp)
  rcases List.mem_append.mp hmem with hmem | hmem
  · simp only [List.mem_cons, Prod.mk.injEq, reduceCtorEq, and_false, false_or, List.not_mem_nil,
      or_false, Entry.link.injEq] at hmem
    -- the four links: `s`, the schema file, the deep one, and `x`, which leads nowhere
    rcases hmem with ⟨hloc,-⟩ | ⟨hloc,-⟩ | ⟨hloc,-⟩ | ⟨hloc,-⟩
    · obtain ⟨rfl,hname⟩ := List.append_inj' (hloc.trans (by rfl : _ = ["p"] ++ ["s"])) rfl
      cases hname
      obtain ⟨rfl,-⟩ := hl.deterministic hs
      exact ⟨_,rfl⟩
    · obtain ⟨rfl,hname⟩ :=
        List.append_inj' (hloc.trans (by rfl : _ = ["p"] ++ ["schema.prisma"])) rfl
      cases hname
      obtain ⟨rfl,-⟩ := hl.deterministic detour_schema
      exact ⟨_,rfl⟩
    · obtain ⟨rfl,hname⟩ := List.append_inj' hloc (by simp)
      obtain rfl := List.singleton_inj.mp hname
      obtain ⟨rfl,-⟩ := hl.deterministic detour_deep
      exact ⟨_,rfl⟩
    · obtain ⟨rfl,hname⟩ := List.append_inj' hloc rfl
      cases hname
      exact absurd hl detour_self.not_leads
  · obtain ⟨k,-,hk⟩ := List.mem_map.mp hmem
    cases (Prod.mk.inj hk).2

/-- The walk along the real path takes the link that lies too deep for a directory, and steps up to
where that link lies. -/
theorem detour_realAlong {depth : Nat} : detour.realAlong
    (detour.realTarget (depth + 2) [Path.mk .root ["p","schema.prisma"]]) (Path.mk .root ["p"])
    detourNames = .error (Path.mk .root ("p" :: List.replicate 16 longName ++ ["x"])) := by
  let schema := Path.mk .root ["p","schema.prisma"]
  have hlink : detour.linkTarget? (Path.mk .root (["p"] ++ ["s"])) =
      some ("/".intercalate (List.replicate 8 longName)) := by
    rw [linkTarget?_of_isReal detour_project (by decide) (by decide), detour_links.1]
  have hs : detour.realTarget (depth + 2) [schema] (Path.mk .root ["p"])
      (Path.mk .root (["p"] ++ ["s"])) ("/".intercalate (List.replicate 8 longName)) =
        .ok (Path.mk .root ("p" :: List.replicate 8 longName)) := by
    rw [realTarget_names short_written (by decide) (by decide)]
    have h := @realAlong_append_of_isReal detour (detour.realTarget (depth + 1)
      (Path.mk .root (["p"] ++ ["s"]) :: [schema])) ["p"] [] (List.replicate 8 longName) detour_half
    rwa [List.append_nil] at h
  have hx : detour.realTarget (depth + 2) [schema] (Path.mk .root ("p" :: List.replicate 16 longName))
      (Path.mk .root ("p" :: List.replicate 16 longName ++ ["x"])) "x" =
        .error (Path.mk .root ("p" :: List.replicate 16 longName ++ ["x"])) :=
    detour_self.realTarget detour_depth.2 (by simp [schema])
  have hxlink : detour.linkTarget? (Path.mk .root ("p" :: List.replicate 16 longName ++ ["x"])) =
      some "x" := by
    rw [linkTarget?_of_isReal detour_isReal (by decide) detour_depth.2, detour_links.2.2.2]
  have hsplit : List.replicate 9 longName ++ ["..","x"] =
      List.replicate 8 longName ++ (longName :: ["..","x"]) := by
    rw [List.replicate_succ', List.append_assoc]
    rfl
  have hhalves : ("p" :: List.replicate 8 longName) ++ List.replicate 8 longName =
      "p" :: List.replicate 16 longName := by
    rw [List.cons_append, List.replicate_append_replicate]
  -- over `s` and down to the sixteenth directory, past the deep link as if it were none, and back up
  rw [detourNames, List.cons_append, realAlong_link (by decide) hlink hs, hsplit,
    realAlong_append_of_isReal (hhalves ▸ detour_isReal), hhalves,
    realAlong_keep names_longName (linkTarget?_eq_none (Nat.not_le.mp detour_depth.1)), realAlong_up,
    List.dropLast_concat, realAlong_link_error (by decide) hxlink hx, withRest_nil]

theorem detour_realPath : detour.realPath (Path.mk .root ["p","schema.prisma"]) =
    Path.mk .root ("p" :: List.replicate 16 longName ++ ["x"]) := by
  have hdepth : detour.linkDepth = 12 + 1 := rfl
  have hlink : detour.linkTarget? (Path.mk .root (["p"] ++ ["schema.prisma"])) =
      some ("/".intercalate detourNames) := by
    rw [linkTarget?_of_isReal detour_project (by decide) (by decide), detour_links.2.1]
  have htarget : detour.realTarget (12 + 1) [] (Path.mk .root ["p"])
      (Path.mk .root (["p"] ++ ["schema.prisma"])) ("/".intercalate detourNames) =
        .error (Path.mk .root ("p" :: List.replicate 16 longName ++ ["x"])) := by
    rw [realTarget_names detourNames_written (by decide) List.not_mem_nil]
    exact detour_realAlong
  have halong : detour.realAlong (detour.realTarget detour.linkDepth []) (Path.mk .root [])
      (Path.mk .root ["p","schema.prisma"]).segments =
        .error (Path.mk .root ("p" :: List.replicate 16 longName ++ ["x"])) := by
    have hsegments : (Path.mk .root ["p","schema.prisma"]).segments = ["p"] ++ ["schema.prisma"] := rfl
    rw [hdepth, hsegments, realAlong_append_of_isReal detour_project, List.nil_append,
      realAlong_link_error (by decide) hlink htarget, withRest_nil]
  apply realPath_of_stopped rfl halong
  intro n hn
  have hplain : ∀ n ∈ ["p","d","x","s","schema.prisma"], n ≠ ".." := by decide
  rcases (detour_names _ (mem_entries_of_eq detour_links.2.2.2 (by simp))).2 n hn with rfl | hn
  · exact names_longName.2.1
  · exact hplain n hn

theorem detour_refused : detour.resolve (Path.mk .root ["p","schema.prisma"]) =
    .error (.linkLoop (Path.mk .root ("p" :: List.replicate 16 longName ++ ["x"]))) :=
  resolve_of_loop (by decide) detour_realPath (detour_self.status detour_depth.2)

theorem detour_absent {name : String} (hn : name ∉ ["p","d","x","s","schema.prisma"])
    (hlong : name ≠ longName) : detour.entry? (["p"] ++ [name]) = none := by
  by_contra h
  obtain ⟨entry,he⟩ := Option.ne_none_iff_exists'.mp h
  rcases (detour_names _ (mem_entries_of_eq he (by simp))).2 name (by simp) with h | h
  · exact hlong h
  · exact hn h

theorem detour_status : detour.status (Path.mk .root ["p","schema.prisma"]) =
    .ok (["p","x"],.file linkedSchema.schemaBytes) := by
  have hp : detour.Leads [] ["p"] ["p"] .directory [] := leads_of_isReal detour_project
  exact status_eq_ok_iff.mpr ⟨by decide,_,by decide,hp.append rfl detour_schema⟩

theorem detour_file : Schema.file? detour (Path.mk .root ["p"]) =
    .ok (some (Path.mk .root ["p","schema.prisma"])) := by
  have hprisma : detour.status ((Path.mk .root ["p"]).descend ["prisma","schema.prisma"]) =
      .error .missing :=
    status_of_absent detour_project (by decide)
      (detour_absent (by decide) (longName_ne (by decide)).symm) (by decide)
  rw [Schema.file?, Schema.places, List.map_cons, firstFile?, isFile?_of_absent hprisma]
  exact firstFile?_cons detour_status

theorem detour_resolve : detour.resolve (Path.mk .root ["p"]) = .ok (Path.mk .root ["p"]) :=
  resolve_of_leads rfl (leads_of_isReal detour_project) fun _ hl => absurd hl List.not_mem_nil

theorem detour_name (room : Nat) : Project.name detour room (Path.mk .root ["p"]) = .ok "p" :=
  Project.name_of_absent (status_of_absent detour_project (by decide)
    (detour_absent (by decide) (longName_ne (by decide)).symm) (by decide))

theorem detour_valid : Project.validate detour (some "/p") = .ok (Path.mk .root ["p"]) := by
  have hstatus : detour.status (Path.mk .root ["p"]) = .ok (["p"],.directory) :=
    status_eq_ok_iff.mpr ⟨by decide,[],by decide,leads_of_isReal detour_project⟩
  exact Project.validate_of_directory (by decide) detour_resolve hstatus

/-- Beyond the length limit the viewer refuses a path that the analysis of the same project reports,
although every link of the project stays inside it. -/
theorem detour_reported_refused : detour.WellFormed ∧ detour.Slashless ∧
    detour.resolve (Path.parse "/p") = .ok (Path.mk .root ["p"]) ∧ detour.IsReal ["p"] ∧
    detour.Enclosed ["p"] ∧
    ∃ analysis report, (ofPath detour 900 {} {} "" (some "/p")).outcome.1 = .ok analysis ∧
      analysis.schema = some report ∧ report.schemaFile = "schema.prisma" ∧
      FileView.read detour "/p" report.schemaFile =
        .error (.linkLoop (Path.mk .root ("p" :: List.replicate 16 longName ++ ["x"]))) := by
  have hread : Source.read? detour (Path.mk .root ["p","schema.prisma"]) = some "model A \x7b\n\x7d" :=
    Source.read?_of_status detour_status
  obtain ⟨analysis,hrun,hschema⟩ := @ofPath_schema detour "/p" 900 {} {} "" (Path.mk .root ["p"])
    (Path.mk .root ["p","schema.prisma"]) "p" "model A \x7b\n\x7d" detour_valid detour_resolve
    (detour_name _) detour_file hread (by decide +kernel)
  have hname : Source.relativeName detour (Path.mk .root ["p"]) (Path.mk .root ["p","schema.prisma"]) =
      "schema.prisma" :=
    @Source.relativeName_descend detour (Path.mk .root ["p"]) ["schema.prisma"] rfl (by decide)
      (by decide) (by decide)
  have hrequest : requestedPath (Path.mk .root ["p"]) "schema.prisma" =
      Path.mk .root ["p","schema.prisma"] := by
    decide +kernel
  have hrefused : FileView.read detour "/p" "schema.prisma" =
      .error (.linkLoop (Path.mk .root ("p" :: List.replicate 16 longName ++ ["x"]))) :=
    read_of_unresolved detour_resolve hrequest ⟨rfl,["schema.prisma"],rfl⟩ detour_status detour_refused
  refine ⟨detour_wellFormed,detour_slashless,detour_resolve,detour_project,detour_enclosed,analysis,_,
    hrun,hschema,hname,?_⟩
  have hrefusedAt : ∀ reported, reported = "schema.prisma" → FileView.read detour "/p" reported =
      .error (.linkLoop (Path.mk .root ("p" :: List.replicate 16 longName ++ ["x"]))) := by
    rintro _ rfl
    exact hrefused
  exact hrefusedAt _ hname

end Analysis
end WebAtlas
