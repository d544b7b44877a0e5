import WebAtlas.Project.Analysis
import WebAtlas.Proofs.Project.Isolation
import WebAtlas.Proofs.Walk.Alike

/-! # Analyses of file systems that read alike

Every pass takes directories by walking them and files as text, so file systems that read alike have
the same analyses, the same failures and the same log.
-/
namespace WebAtlas
open FileSystem

/-- The name in a package file is read from its text. -/
theorem Project.packageName?_of_sameText {room : Nat} {bytes bytes' : List UInt8}
    (htext : Source.SameText bytes bytes') : packageName? room bytes = packageName? room bytes' := by
  have hstrict := htext.2
  unfold packageName?
  cases hb : Utf8.decodeStrict? bytes with
  | none =>
    rw [hb, Option.map_none, eq_comm, Option.map_eq_none_iff] at hstrict
    rw [hstrict]
  | some text =>
    rw [hb, Option.map_some, eq_comm, Option.map_eq_some_iff] at hstrict
    obtain ⟨text',hb',htext⟩ := hstrict
    simp only [hb', htext]

section Passes
variable {fs fs' : FileSystem} (h : Alike fs fs')
include h

theorem Source.relativeName_alike (root file : Path) :
    relativeName fs root file = relativeName fs' root file := by
  rw [relativeName, relativeName, h.home]

theorem Project.root_alike (project : Path) : root fs project = root fs' project := by
  rw [root, root, h.resolve]

theorem Project.validate_alike (path : Option String) : validate fs path = validate fs' path := by
  unfold validate
  split
  · rfl
  · rfl
  · simp only [h.resolve, h.exists?, h.isDirectory?]

theorem Project.name_alike (room : Nat) (root : Path) : name fs room root = name fs' room root := by
  unfold name
  dsimp only
  rw [h.isFile?]
  rcases h.read (root.child "package.json") with heq | ⟨bytes,bytes',htext,hx,hy⟩
  · rw [heq]
  · simp only [hx, hy, packageName?_of_sameText htext]

theorem Route.scan_alike (settings : Settings) (stamp : String) (project : Path) :
    scan fs settings stamp project = scan fs' settings stamp project := by
  have hfile : ∀ root, ofFile fs root = ofFile fs' root := fun root => funext fun file => by
    rw [ofFile, ofFile, h.text, Source.relativeName_alike h]
  simp only [scan, Project.root_alike h, handlers, Walk.filesBelow_alike h, hfile]

theorem Component.scan_alike (settings : Settings) (aliasPrefix stamp : String) (project : Path) :
    scan fs settings aliasPrefix stamp project = scan fs' settings aliasPrefix stamp project := by
  have hfile : ∀ root, ofFile? fs aliasPrefix root = ofFile? fs' aliasPrefix root := fun root =>
    funext fun file => by rw [ofFile?, ofFile?, h.text, Source.relativeName_alike h]
  simp only [scan, scanUnder, Project.root_alike h, files, Walk.filesBelow_alike h, hfile]

theorem Schema.file?_alike (root : Path) : file? fs root = file? fs' root :=
  firstFile?_congr fun p _ => h.isFile? p

theorem Schema.scan_alike (keywords : List String) (stamp : String) (project : Path) :
    scan fs keywords stamp project = scan fs' keywords stamp project := by
  have hreport : ∀ root file,
      reportOn keywords stamp fs root file = reportOn keywords stamp fs' root file := fun root file =>
    funext fun text => by rw [reportOn, reportOn, Source.relativeName_alike h]
  simp only [scan, Project.root_alike h, file?_alike h, h.text, hreport]

theorem Graph.placeFrom_alike (root : Path) (used : List String) (files : List Path) :
    placeFrom fs root used files = placeFrom fs' root used files := by
  induction files generalizing used with
  | nil => rfl
  | cons file files ih => simp only [placeFrom, Source.relativeName_alike h, ih]

theorem Graph.edges_alike (root : Path) (aliasPrefix : String) (placed : List Placed) :
    edges fs root aliasPrefix placed = edges fs' root aliasPrefix placed := by
  have hfile : fs.hasFile = fs'.hasFile := funext h.hasFile
  have hedge : ∀ source, edgeTo? fs root aliasPrefix placed source =
      edgeTo? fs' root aliasPrefix placed source := fun source => funext fun target => by
    rw [edgeTo?, edgeTo?, Import.resolve, Import.resolve, hfile]
  have hsource : edgesFrom fs root aliasPrefix placed = edgesFrom fs' root aliasPrefix placed :=
    funext fun source => by rw [edgesFrom, edgesFrom, imports, imports, h.text, hedge]
  rw [edges, edges, hsource]

theorem Graph.build_alike (settings : Settings) (aliasPrefix : String) (maxFiles : Int)
    (stamp : String) (project : Path) : build fs settings aliasPrefix maxFiles stamp project =
      build fs' settings aliasPrefix maxFiles stamp project := by
  simp only [build, Project.root_alike h, Walk.sources_alike h, place, placeFrom_alike h, edges_alike h]

theorem Analysis.ofPath_alike (room : Nat) (settings : Settings) (options : Options) (stamp : String)
    (path : Option String) :
    ofPath fs room settings options stamp path = ofPath fs' room settings options stamp path := by
  simp only [ofPath, Project.validate_alike h, run, Route.scan_alike h, Component.scan_alike h,
    Schema.scan_alike h, Graph.build_alike h, Project.name_alike h]

end Passes
end WebAtlas
