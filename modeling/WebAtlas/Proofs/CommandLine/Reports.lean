import WebAtlas.CommandLine.Run
import WebAtlas.Proofs.FileSystem.Writing
import WebAtlas.Proofs.Json.RoundTrip
import Mathlib.Data.List.Pairwise

/-! # The reports of an analysis

One file holds the whole analysis, and each part that is present has a file of its own. Once the files
are written each holds a value that can be read back, and a file of an absent part is as it was before.
-/
namespace WebAtlas
open FileSystem
variable {fs after : FileSystem} {dir p q : Path} {a : Analysis String}

/-- Whether all numbers of an analysis have few enough digits to be read back. -/
def Analysis.Countable {Name : Type} (a : Analysis Name) : Prop := ∀ r ∈ a.components,
  (∀ c ∈ r.components, (Nat.toDigits 10 c.lineCount.natAbs).length ≤ Json.digitLimit) ∧
  ∀ d ∈ r.directories, (Nat.toDigits 10 d.count.natAbs).length ≤ Json.digitLimit

namespace Json

theorem readable_string {depth : Nat} (text : String) : Readable depth (.string text) := by
  cases depth <;> trivial

theorem readable_strings {depth : Nat} (values : List String) :
    Readable (depth + 1) (.strings values) := by
  intro item hitem
  obtain ⟨text,-,rfl⟩ := List.mem_map.mp hitem
  exact readable_string text

theorem readable_routes {depth : Nat} (r : RouteReport) : Readable (depth + 5) r.toJson := by
  simp [Readable, RouteReport.toJson, Route.toJson]

theorem readable_schema {depth : Nat} (r : SchemaReport) : Readable (depth + 5) r.toJson := by
  simp [Readable, SchemaReport.toJson, Schema.Entity.toJson, Schema.Field.toJson,
    Schema.Relationship.toJson]

theorem readable_graph {depth : Nat} (g : ImportGraph) : Readable (depth + 5) g.toJson := by
  simp [Readable, ImportGraph.toJson, Graph.Node.toJson, Graph.Edge.toJson, Graph.Cluster.toJson,
    readable_strings]

theorem readable_components {depth : Nat} {r : ComponentReport} (hr : r ∈ a.components)
    (h : a.Countable) : Readable (depth + 5) r.toJson := by
  obtain ⟨hlines,hcounts⟩ := h r hr
  simpa [Readable, ComponentReport.toJson, Component.toJson, DirectoryCount.toJson,
    readable_strings] using ⟨hlines,hcounts⟩

theorem readable_ofOption {α : Type} {depth : Nat} {encode : α → Json} {part : Option α}
    (h : ∀ r ∈ part, Readable depth (encode r)) : Readable depth (.ofOption encode part) := by
  cases part with
  | none => cases depth <;> trivial
  | some r => exact h r rfl

/-- A whole analysis is written in a form that can be read back. -/
theorem readable_analysis {depth : Nat} (h : a.Countable) : Readable (depth + 6) a.toJson := by
  have hroutes : Readable (depth + 5) (.ofOption RouteReport.toJson a.routes) :=
    readable_ofOption fun r _ => readable_routes r
  have hcomponents : Readable (depth + 5) (.ofOption ComponentReport.toJson a.components) :=
    readable_ofOption fun r hr => readable_components hr h
  have hschema : Readable (depth + 5) (.ofOption SchemaReport.toJson a.schema) :=
    readable_ofOption fun r _ => readable_schema r
  have hgraph : Readable (depth + 5) (.ofOption ImportGraph.toJson a.graph) :=
    readable_ofOption fun g _ => readable_graph g
  simp [Readable, Analysis.toJson, Analysis.membersBeforeName, hroutes, hcomponents, hschema, hgraph]

end Json

namespace CommandLine

/-- How deep the containers of a report nest. -/
def reportDepth : Nat := 6

/-- The file at a path is the encoding of a text that is read as a value, wherever there is room for a
report. -/
def Holds (fs : FileSystem) (p : Path) (value : Json) : Prop :=
  ∃ text : String, fs.read p = .ok text.toUTF8.toList ∧
    ∀ room, reportDepth ≤ room → Json.read room text.toList = .ok value.parsed

section files
variable {files : List (String × List UInt8)}

theorem writeFiles_cons {name : String} {bytes : List UInt8}
    (h : writeFiles dir fs ((name,bytes) :: files) = (after,.ok ())) :
    ∃ written, fs.write (dir.child name) bytes = .ok written ∧
      writeFiles dir written files = (after,.ok ()) := by
  rw [writeFiles] at h
  cases hw : fs.write (dir.child name) bytes with
  | error fault =>
    rw [hw] at h
    cases h
  | ok written =>
    rw [hw] at h
    exact ⟨written,rfl,h⟩

/-- Writing files, even if it fails midway, leaves alone what lies at the place of none of them. -/
theorem status_of_writeFiles (hp : ∀ f ∈ files, fs.Apart (dir.child f.1) p) {found : Location × Entry} :
    (writeFiles dir fs files).1.status p = .ok found ↔ fs.status p = .ok found := by
  induction files generalizing fs with
  | nil => rfl
  | cons f files ih =>
    obtain ⟨hfirst,hlater⟩ := List.forall_mem_cons.mp hp
    rw [writeFiles]
    cases hw : fs.write (dir.child f.1) f.2 with
    | error fault => rfl
    | ok written =>
      exact (ih fun g hg => (hlater g hg).of_write hw).trans (status_of_apart hw hfirst)

/-- Each of some files that were written to different places holds its bytes. -/
theorem status_of_mem_writeFiles (h : writeFiles dir fs files = (after,.ok ()))
    (hd : files.Pairwise fun f g => fs.Apart (dir.child f.1) (dir.child g.1)) :
    ∀ f ∈ files, ∃ site, after.status (dir.child f.1) = .ok (site,.file f.2) := by
  induction files generalizing fs with
  | nil => exact fun f hf => absurd hf List.not_mem_nil
  | cons f files ih =>
    obtain ⟨written,hw,hrest⟩ := writeFiles_cons h
    obtain ⟨hfirst,hlater⟩ := List.pairwise_cons.mp hd
    intro g hg
    rcases List.mem_cons.mp hg with rfl | hg
    · obtain ⟨site,hsite⟩ := status_of_write hw rfl
      have hlast : (writeFiles dir written files).1 = after := congrArg Prod.fst hrest
      refine ⟨site,?_⟩
      rw [← hlast]
      exact (status_of_writeFiles fun g hg => (hfirst g hg).symm.of_write hw).mpr hsite
    · exact ih hrest (hlater.imp fun hapart => hapart.of_write hw) g hg

end files

/-- The files of the parts, with the names under which the parts stand in the whole. -/
def partNames : List (String × String) :=
  [("routes.json","routes"), ("components.json","components"), ("schema.json","schema"),
    ("dependencies.json","dependencyGraph")]

def wholeFile : String := "analysis.json"

/-- The files of an analysis show one and the same value: the whole in its file, and each part that is
not `null` in a file of its own. -/
structure Mirrors (fs : FileSystem) (dir : Path) (whole : Json) : Prop where
  holds : Holds fs (dir.child wholeFile) whole
  parts : ∀ f ∈ partNames, ∃ part, whole.member? f.2 = some part ∧
    (fs.exists? (dir.child f.1) = .ok true ↔ part ≠ .null) ∧
    (part ≠ .null → Holds fs (dir.child f.1) part)

/-- Nothing lies under the name of a part that is `null`. -/
def Fresh (fs : FileSystem) (dir : Path) (whole : Json) : Prop :=
  ∀ f ∈ partNames, whole.member? f.2 = some .null → fs.exists? (dir.child f.1) ≠ .ok true

/-- No two report files would be written at one place. -/
def Separate (fs : FileSystem) (dir : Path) : Prop :=
  (partNames.map (·.1) ++ [wholeFile]).Pairwise fun m n => fs.Apart (dir.child m) (dir.child n)

theorem names_sublist {α : Type} (part : Option α) (name : String) (encode : α → Json) :
    ((part.map fun r => (name,encode r)).toList.map (·.1)).Sublist [name] := by
  cases part <;> simp

theorem reportFiles_names (a : Analysis String) :
    ((reportFiles a).map (·.1)).Sublist (partNames.map (·.1) ++ [wholeFile]) := by
  simp only [reportFiles, partFiles, List.map_append]
  exact ((((names_sublist _ _ _).append (names_sublist _ _ _)).append (names_sublist _ _ _)).append
    (names_sublist _ _ _)).append (.refl _)

theorem part_cases {α : Type} {part : Option α} {name : String} {encode : α → Json}
    (hne : ∀ r, encode r ≠ .null) (hn : part = none → ∀ g ∈ reportFiles a, g.1 ≠ name)
    (hs : ∀ r, part = some r → (name,encode r) ∈ reportFiles a) :
    Json.ofOption encode part = .null ∧ (∀ g ∈ reportFiles a, g.1 ≠ name) ∨
      Json.ofOption encode part ≠ .null ∧ (name,Json.ofOption encode part) ∈ reportFiles a := by
  cases hpart : part with
  | none => exact .inl ⟨rfl,hn hpart⟩
  | some r => exact .inr ⟨hne r,hs r hpart⟩

theorem mem_reportFiles {f : String × Json} : f ∈ reportFiles a ↔
    (∃ r, a.routes = some r ∧ ("routes.json",r.toJson) = f) ∨
      (∃ r, a.components = some r ∧ ("components.json",r.toJson) = f) ∨
        (∃ r, a.schema = some r ∧ ("schema.json",r.toJson) = f) ∨
          (∃ g, a.graph = some g ∧ ("dependencies.json",g.toJson) = f) ∨ (wholeFile,a.toJson) = f := by
  simp only [reportFiles, partFiles, List.mem_append, Option.mem_toList, Option.map_eq_some_iff,
    List.mem_singleton, or_assoc, wholeFile, @eq_comm _ f]

/-- A part is `null` and no file is written for it, or it is written to its file. -/
theorem reportFiles_part {f : String × String} (hf : f ∈ partNames) :
    ∃ part, a.toJson.member? f.2 = some part ∧
      (part = .null ∧ (∀ g ∈ reportFiles a, g.1 ≠ f.1) ∨ part ≠ .null ∧ (f.1,part) ∈ reportFiles a) := by
  simp only [partNames, List.mem_cons, List.not_mem_nil, or_false] at hf
  rcases hf with rfl | rfl | rfl | rfl
  · exact ⟨_,rfl,part_cases (by simp [RouteReport.toJson])
      (fun h => by simp [mem_reportFiles, h, or_imp, forall_and, wholeFile, -Prod.forall])
      fun r h => mem_reportFiles.mpr (.inl ⟨r,h,rfl⟩)⟩
  · exact ⟨_,rfl,part_cases (by simp [ComponentReport.toJson])
      (fun h => by simp [mem_reportFiles, h, or_imp, forall_and, wholeFile, -Prod.forall])
      fun r h => mem_reportFiles.mpr (.inr (.inl ⟨r,h,rfl⟩))⟩
  · exact ⟨_,rfl,part_cases (by simp [SchemaReport.toJson])
      (fun h => by simp [mem_reportFiles, h, or_imp, forall_and, wholeFile, -Prod.forall])
      fun r h => mem_reportFiles.mpr (.inr (.inr (.inl ⟨r,h,rfl⟩)))⟩
  · exact ⟨_,rfl,part_cases (by simp [ImportGraph.toJson])
      (fun h => by simp [mem_reportFiles, h, or_imp, forall_and, wholeFile, -Prod.forall])
      fun g h => mem_reportFiles.mpr (.inr (.inr (.inr (.inl ⟨g,h,rfl⟩))))⟩

theorem mem_reportFiles_whole : (wholeFile,a.toJson) ∈ reportFiles a :=
  mem_reportFiles.mpr (.inr (.inr (.inr (.inr rfl))))

theorem readable_reportFiles {room : Nat} (h : a.Countable) (hr : reportDepth ≤ room) :
    ∀ f ∈ reportFiles a, Json.Readable room f.2 := by
  obtain ⟨room,rfl⟩ := Nat.exists_eq_add_of_le' hr
  intro f hf
  rcases mem_reportFiles.mp hf with ⟨r,-,rfl⟩ | ⟨r,hr,rfl⟩ | ⟨r,-,rfl⟩ | ⟨g,-,rfl⟩ | rfl
  · exact Json.readable_routes r
  · exact Json.readable_components hr h
  · exact Json.readable_schema r
  · exact Json.readable_graph g
  · exact Json.readable_analysis h

theorem mem_names {f : String × String} (hf : f ∈ partNames) :
    f.1 ∈ partNames.map (·.1) ++ [wholeFile] :=
  List.mem_append_left _ (List.mem_map_of_mem hf)

theorem encoded_apart (hs : Separate fs dir) :
    (encoded (reportFiles a)).Pairwise fun f g => fs.Apart (dir.child f.1) (dir.child g.1) := by
  have hwritten := List.Pairwise.sublist (reportFiles_names a) hs
  rw [List.pairwise_map] at hwritten
  exact List.pairwise_map.mpr hwritten

/-- Every report is there once all are written, and it holds its value. -/
theorem holds_of_writeFiles (h : writeFiles dir fs (encoded (reportFiles a)) = (after,.ok ()))
    (hs : Separate fs dir) (hc : a.Countable) : ∀ f ∈ reportFiles a,
      Holds after (dir.child f.1) f.2 ∧ after.exists? (dir.child f.1) = .ok true := by
  intro f hf
  have hwritten : (f.1,f.2.render.toUTF8.toList) ∈ encoded (reportFiles a) := List.mem_map_of_mem hf
  obtain ⟨site,hsite⟩ := status_of_mem_writeFiles h (encoded_apart hs) _ hwritten
  exact ⟨⟨f.2.render,read_of_status hsite,fun room hroom =>
    Json.read_render (readable_reportFiles hc hroom f hf)⟩,exists?_eq_true_iff.mpr ⟨_,hsite⟩⟩

/-- Under the name of a part for which no report is written there is what was there before. -/
theorem exists_of_writeFiles (h : writeFiles dir fs (encoded (reportFiles a)) = (after,.ok ()))
    (hs : Separate fs dir) {f : String × String} (hf : f ∈ partNames)
    (hno : ∀ g ∈ reportFiles a, g.1 ≠ f.1) :
    after.exists? (dir.child f.1) = .ok true ↔ fs.exists? (dir.child f.1) = .ok true := by
  have hsymm : Std.Symm fun m n => fs.Apart (dir.child m) (dir.child n) := ⟨fun _ _ h => h.symm⟩
  have hapart : ∀ g ∈ encoded (reportFiles a), fs.Apart (dir.child g.1) (dir.child f.1) := by
    intro g hg
    obtain ⟨report,hreport,rfl⟩ := List.mem_map.mp hg
    exact List.Pairwise.forall hs ((reportFiles_names a).subset (List.mem_map_of_mem hreport))
      (mem_names hf) (hno report hreport)
  have hlast : after = (writeFiles dir fs (encoded (reportFiles a))).1 := (congrArg Prod.fst h).symm
  rw [exists?_eq_true_iff, exists?_eq_true_iff, hlast]
  exact exists_congr fun found => status_of_writeFiles hapart

/-- The files that are written mirror the analysis exactly when none stood under the name of an absent
part. -/
theorem mirrors_of_writeFiles (h : writeFiles dir fs (encoded (reportFiles a)) = (after,.ok ()))
    (hs : Separate fs dir) (hc : a.Countable) :
    Mirrors after dir a.toJson ↔ Fresh fs dir a.toJson := by
  have hwritten := holds_of_writeFiles h hs hc
  constructor
  · intro hm f hf hnull hstood
    obtain ⟨part,hpart,hiff,-⟩ := hm.parts f hf
    obtain ⟨part',hpart',hcase⟩ := reportFiles_part (a := a) hf
    obtain rfl := Option.some.inj (hnull.symm.trans hpart)
    obtain rfl := Option.some.inj (hnull.symm.trans hpart')
    rcases hcase with ⟨-,hno⟩ | ⟨hne,-⟩
    · exact hiff.mp ((exists_of_writeFiles h hs hf hno).mpr hstood) rfl
    · exact hne rfl
  · intro hfresh
    refine ⟨(hwritten _ mem_reportFiles_whole).1,fun f hf => ?_⟩
    obtain ⟨part,hpart,hcase⟩ := reportFiles_part (a := a) hf
    refine ⟨part,hpart,?_⟩
    rcases hcase with ⟨rfl,hno⟩ | ⟨hne,hmem⟩
    · have hgone := mt (exists_of_writeFiles h hs hf hno).mp (hfresh f hf hpart)
      exact ⟨⟨fun h => absurd h hgone,fun h => absurd rfl h⟩,fun h => absurd rfl h⟩
    · obtain ⟨hholds,hthere⟩ := hwritten _ hmem
      exact ⟨⟨fun _ => hne,fun _ => hthere⟩,fun _ => hholds⟩

end CommandLine
end WebAtlas
