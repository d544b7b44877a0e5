import WebAtlas.Proofs.FileSystem.RealPath
import WebAtlas.Proofs.Project.Analysis
import WebAtlas.Proofs.Route.Method
import WebAtlas.Proofs.Sorting
import WebAtlas.Proofs.Walk.Evaluation
import WebAtlas.Proofs.Walk.Roots

/-! # The routes of a project

A scan gives one route for each method of each readable handler below an API root, and no other. The
directories between the root and the handler make up the path of the route, whatever their names are.
There is no report at all when an API root cannot even be tested.
-/
namespace WebAtlas.Route
open FileSystem
variable {fs : FileSystem} {settings : Settings} {maxDepth : Int} {stamp : String}
  {project root file : Path} {segments names : List String} {fileName text : String} {route : Route}

/-- The route of a handler `names` below the API root at `segments`. -/
def offered (segments names : List String) (fileName text : String) (method : HttpMethod) : Route :=
  ⟨"/" ++ "/".intercalate ("api" :: names),method,names.headD "api",AccessTier.infer text,
    "/".intercalate (segments ++ names ++ [fileName])⟩

/-- The routes in the order in which they are found. -/
def discovered (fs : FileSystem) (maxDepth : Int) (root : Path) : List Route :=
  (fs.filesMet ⟨[],maxDepth⟩ Source.isRouteHandler root roots).flatMap (ofFile fs root)

/-- What tells the routes of a project apart. -/
def key (route : Route) : String × HttpMethod := (route.sourceFile,route.method)

structure Complete (fs : FileSystem) (maxDepth : Int) (root : Path) (routes : List Route) : Prop where
  mem_iff : ∀ route, route ∈ routes ↔ ∃ segments names fileName text,
    fs.Yields ⟨[],maxDepth⟩ Source.isRouteHandler root roots segments names fileName text ∧
    ∃ method ∈ HttpMethod.detect text, offered segments names fileName text method = route
  distinct : (routes.map key).Nodup
  sorted : routes.Pairwise fun a b =>
    a.path < b.path ∨ a.path = b.path ∧ a.method.name ≤ b.method.name
  ties : ∀ path method, routes.filter (fun route => route.path = path ∧ route.method.name = method) =
    (discovered fs maxDepth root).filter fun route => route.path = path ∧ route.method.name = method

theorem sortsBy_before : SortsBy before (·.path) (·.method.name) := by
  intro a b
  unfold before
  split <;> simp_all

theorem roots_plain : ∀ segments ∈ roots, Path.Plain segments := by decide

theorem roots_apart : roots.Pairwise fun a b => ¬ a <+: b ∧ ¬ b <+: a := by decide

/-- The first `api` on the way to a handler is the one that ends its API root. -/
theorem dropWhile_roots (hs : segments ∈ roots) :
    (segments ++ names).dropWhile (· ≠ "api") = "api" :: names := by
  simp only [roots, List.mem_cons, List.not_mem_nil, or_false] at hs
  rcases hs with rfl | rfl | rfl | rfl <;> simp

theorem pathOf_handler (hs : segments ∈ roots) (hn : Path.Plain (segments ++ names ++ [fileName])) :
    pathOf ("/".intercalate (segments ++ names ++ [fileName])) =
      "/" ++ "/".intercalate ("api" :: names) := by
  rw [pathOf, Path.pieces_intercalate (fun n h => (hn n h).2.2) (by simp), List.dropLast_concat,
    dropWhile_roots hs]
  rfl

theorem featureOf_handler (hn : Path.Plain names) :
    featureOf ("/" ++ "/".intercalate ("api" :: names)) = names.headD "api" := by
  have hplain : Path.Plain ("api" :: names) := (by decide : Path.Plain ["api"]).append hn
  have hfull : ("api" :: names).filter (· ≠ "") = "api" :: names := by
    refine List.filter_eq_self.mpr fun n h => decide_eq_true ?_
    rintro rfl
    exact absurd (hplain _ h).1 (by decide)
  rw [featureOf, Path.pieces_slash, Path.pieces_intercalate (fun n h => (hplain n h).2.2) (by simp),
    List.filter_cons_of_neg (by decide), hfull]
  cases names with
  | nil => rfl
  | cons first rest => rfl

theorem ofHandler_eq (hs : segments ∈ roots) (hn : Path.Plain (segments ++ names ++ [fileName])) :
    ofHandler ("/".intercalate (segments ++ names ++ [fileName])) text =
      (HttpMethod.detect text).map (offered segments names fileName text) := by
  have hnames : Path.Plain names := hn.mono fun n h => by simp [h]
  rw [ofHandler, pathOf_handler hs hn, featureOf_handler hnames]
  rfl

theorem mem_ofFile : route ∈ ofFile fs root file ↔
    ∃ text, Source.read? fs file = some text ∧
      route ∈ ofHandler (Source.relativeName fs root file) text := by
  unfold ofFile
  cases Source.read? fs file <;> simp

theorem sourceFile_of_mem (h : route ∈ ofFile fs root file) :
    route.sourceFile = Source.relativeName fs root file := by
  obtain ⟨text,-,hr⟩ := mem_ofFile.mp h
  obtain ⟨method,-,rfl⟩ := List.mem_map.mp hr
  rfl

theorem ofFile_nodup : ((ofFile fs root file).map key).Nodup := by
  unfold ofFile
  split
  · exact List.nodup_nil
  · rename_i text _
    rw [ofHandler, List.map_map]
    exact (HttpMethod.detect_nodup text).map fun a b h => (Prod.mk.inj h).2

section Found
variable (hfs : fs.WellFormed) (hslash : fs.Slashless) (ha : root.isAbsolute = true)
  (hroot : ∀ s ∈ root.segments, s ≠ "..")
include hfs hslash ha hroot

theorem mem_discovered : route ∈ discovered fs maxDepth root ↔ ∃ segments names fileName text,
    fs.Yields ⟨[],maxDepth⟩ Source.isRouteHandler root roots segments names fileName text ∧
    ∃ method ∈ HttpMethod.detect text, offered segments names fileName text method = route := by
  rw [discovered, List.mem_flatMap]
  simp only [mem_ofFile]
  rw [hfs.exists_yields_iff hslash]
  refine exists_congr fun segments => exists_congr fun names => exists_congr fun fileName =>
    exists_congr fun text => and_congr_right fun h => ?_
  have hplain := h.plain hfs hslash roots_plain
  rw [Source.relativeName_descend ha hroot hplain (by simp), ofHandler_eq h.start hplain,
    List.mem_map]

theorem discovered_nodup : ((discovered fs maxDepth root).map key).Nodup := by
  rw [discovered, List.map_flatMap, List.nodup_flatMap]
  refine ⟨fun file _ => ofFile_nodup,?_⟩
  refine (List.pairwise_map.mp (hfs.relativeName_nodup hslash roots_plain roots_apart ha hroot)).imp ?_
  intro file file' hne k hk hk'
  obtain ⟨route,hr,rfl⟩ := List.mem_map.mp hk
  obtain ⟨route',hr',heq⟩ := List.mem_map.mp hk'
  apply hne
  rw [← sourceFile_of_mem hr, ← sourceFile_of_mem hr']
  exact (Prod.mk.inj heq).1.symm

theorem complete_sorted : Complete fs maxDepth root ((discovered fs maxDepth root).mergeSort before) where
  mem_iff route := by rw [List.mem_mergeSort, mem_discovered hfs hslash ha hroot]
  distinct :=
    ((List.mergeSort_perm _ _).map key).nodup_iff.mpr (discovered_nodup hfs hslash ha hroot)
  sorted := sortsBy_before.sorted _
  ties path method := sortsBy_before.filter_mergeSort path method _

end Found

theorem scan_eq_ok_iff (hproject : fs.resolve project = .ok root) {report : RouteReport} :
    (scan fs settings stamp project).outcome.1 = .ok report ↔
      (∀ segments ∈ roots, fs.Clear (root.descend segments)) ∧
      report = ⟨(discovered fs settings.maxDepth root).mergeSort before,root.text,stamp⟩ := by
  rw [scan_outcome, hproject]
  exact Walk.map_filesBelow_eq_ok_iff

/-- There is a report exactly when every API root can be tested, and every report is complete. -/
theorem scan_complete (hfs : fs.WellFormed) (hslash : fs.Slashless)
    (hproject : fs.resolve project = .ok root) :
    ((∃ report, (scan fs settings stamp project).outcome.1 = .ok report) ↔
      ∀ segments ∈ roots, fs.Clear (root.descend segments)) ∧
    ∀ report, (scan fs settings stamp project).outcome.1 = .ok report →
      Complete fs settings.maxDepth root report.routes ∧ report.projectPath = root.text ∧
        report.generatedAt = stamp := by
  have ha := resolve_isAbsolute hproject
  have hroot := resolve_ne_dotdot hproject
  constructor
  · constructor
    · rintro ⟨report,h⟩
      exact ((scan_eq_ok_iff hproject).mp h).1
    · intro hclear
      exact ⟨_,(scan_eq_ok_iff hproject).mpr ⟨hclear,rfl⟩⟩
  · intro report h
    obtain ⟨-,rfl⟩ := (scan_eq_ok_iff hproject).mp h
    exact ⟨complete_sorted hfs hslash ha hroot,rfl,rfl⟩

/-- A project `p` with one handler, and with `app` as given. -/
def besideApp (app : Entry) : FileSystem where
  entries := [(["p"],.directory), (["p","app"],app), (["p","pages"],.directory),
    (["p","pages","api"],.directory), (["p","pages","api","route.ts"],.file handlerBytes)]
  workingDirectory := []
where
  handlerBytes : List UInt8 := "export function GET() {}".toList.map fun c => c.toNat.toUInt8

theorem besideApp_wellFormed (app : Entry) : (besideApp app).WellFormed := by
  apply wellFormed_of_getLast?
  · simp [besideApp]
  · intro e he
    simp only [besideApp, List.mem_cons, List.not_mem_nil, or_false] at he
    rcases he with rfl | rfl | rfl | rfl | rfl <;> rfl

theorem besideApp_yields (app : Entry) : (besideApp app).Yields ⟨[],64⟩ Source.isRouteHandler
    (Path.mk .root ["p"]) roots ["pages","api"] [] "route.ts" "export function GET() {}" := by
  refine ⟨by decide,?_,by decide,rfl⟩
  rw [filesUnder, (besideApp_wellFormed app).walk_computed]
  exact List.mem_cons_self

theorem besideApp_slashless (app : Entry) : (besideApp app).Slashless := by
  intro e he
  simp only [besideApp, List.mem_cons, List.not_mem_nil, or_false] at he
  rcases he with rfl | rfl | rfl | rfl | rfl <;> simp

theorem besideApp_resolve (app : Entry) :
    (besideApp app).resolve (Path.parse "/p") = .ok (Path.mk .root ["p"]) := rfl

/-- The handler's one route is reported, `app` being a directory. -/
theorem scan_besideApp : (besideApp .directory).WellFormed ∧ (besideApp .directory).Slashless ∧
    (besideApp .directory).resolve (Path.parse "/p") = .ok (Path.mk .root ["p"]) ∧
    ∃ report, (scan (besideApp .directory) {} "" (Path.parse "/p")).outcome.1 = .ok report ∧
      (⟨"/api",.get,"api",.anyone,"pages/api/route.ts"⟩ : Route) ∈ report.routes ∧
      (report.routes.map key).Nodup := by
  have hscan := @scan_complete (besideApp .directory) {} "" (Path.parse "/p") (Path.mk .root ["p"])
    (besideApp_wellFormed _) (besideApp_slashless _) (besideApp_resolve _)
  obtain ⟨report,hreport⟩ := hscan.1.mpr (by decide)
  have hcomplete := (hscan.2 report hreport).1
  refine ⟨besideApp_wellFormed _,besideApp_slashless _,besideApp_resolve _,report,hreport,?_,
    hcomplete.distinct⟩
  have hget : HttpMethod.get ∈ HttpMethod.detect "export function GET() {}" := by decide
  exact (hcomplete.mem_iff _).mpr ⟨_,_,_,_,besideApp_yields .directory,_,hget,rfl⟩

/-- A link `app` to a name that is too long hides every route of the project. -/
theorem scan_overlong_link : (besideApp (.link overlong)).WellFormed ∧
    (besideApp (.link overlong)).Slashless ∧
    (besideApp (.link overlong)).resolve (Path.parse "/p") = .ok (Path.mk .root ["p"]) ∧
    (besideApp (.link overlong)).Yields ⟨[],64⟩ Source.isRouteHandler (Path.mk .root ["p"]) roots
      ["pages","api"] [] "route.ts" "export function GET() {}" ∧
    .get ∈ HttpMethod.detect "export function GET() {}" ∧
    (scan (besideApp (.link overlong)) {} "" (Path.parse "/p")).outcome.1 =
      .error (.file ⟨.nameTooLong,Path.mk .root ["p","app","api"]⟩) := by
  have hp : (besideApp (.link overlong)).IsReal ["p"] :=
    isReal_nil.snoc (by decide) rfl
  have happ : FileSystem.entry? (besideApp (.link overlong)) (["p"] ++ ["app"]) =
      some (.link overlong) := rfl
  have hstatus := @status_of_overlong_link _ ["p"] ["api"] _ _ _ hp (by decide) happ pieces_overlong
    unfit_overlong
  refine ⟨besideApp_wellFormed _,besideApp_slashless _,besideApp_resolve _,besideApp_yields _,
    by decide,?_⟩
  have htest : (besideApp (.link overlong)).isDirectory? ((Path.mk .root ["p"]).descend ["app","api"]) =
      .error ⟨.nameTooLong,Path.mk .root ["p","app","api"]⟩ := 
      test_of_not_clear (not_clear_iff.mpr ⟨hstatus,by decide⟩)
  have hfiles : (handlers (besideApp (.link overlong)) {} (Path.mk .root ["p"])).outcome.1 =
      .error (.file ⟨.nameTooLong,Path.mk .root ["p","app","api"]⟩) := by
    rw [handlers, Walk.filesBelow, roots, List.foldlM_cons, Walk.filesIfDirectory, htest]
    rfl
  rw [scan_outcome, besideApp_resolve]
  exact congrArg (Except.map _) hfiles

end WebAtlas.Route
