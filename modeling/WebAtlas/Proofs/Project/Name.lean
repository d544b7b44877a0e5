import WebAtlas.Proofs.FileSystem.Overlong
import WebAtlas.Proofs.Json.Reading
import WebAtlas.Proofs.Json.Relined
import WebAtlas.Proofs.Project.Analysis
import WebAtlas.Proofs.Text.Strict

/-! # What a project is called

A package file gives the project its name when it is well-formed UTF-8 and spells an object of which the
last member `name` is a text, not empty. In every other case the project is called by its directory,
unless the package file cannot even be examined. A name may be a string that is no text.
-/
namespace WebAtlas
open FileSystem
variable {fs : FileSystem} {root : Path} {room : Nat} {bytes : List UInt8}
  {n : CodePoints}

/-- The member that counts is the last one of its name. -/
theorem Parsed.member?_eq_some_iff {members : List (CodePoints × Parsed)} {name : CodePoints}
    {v : Parsed} : (Parsed.object members).member? name = some v ↔
      ∃ before after, members = before ++ (name,v) :: after ∧ ∀ m ∈ after, m.1 ≠ name := by
  rw [member?, Option.map_eq_some_iff]
  constructor
  · rintro ⟨m,hfind,rfl⟩
    obtain ⟨hname,after,before,hmembers,hafter⟩ := List.find?_eq_some_iff_append.mp hfind
    refine ⟨before.reverse,after.reverse,?_,fun m hm => ?_⟩
    · rw [← beq_iff_eq.mp hname, ← List.reverse_reverse members, hmembers]
      simp
    · simpa using hafter m (List.mem_reverse.mp hm)
  · rintro ⟨before,after,rfl,hafter⟩
    refine ⟨(name,v),List.find?_eq_some_iff_append.mpr ⟨by simp,after.reverse,before.reverse,by simp,?_⟩,rfl⟩
    intro m hm
    simpa using hafter m (List.mem_reverse.mp hm)

namespace Project

def nameMember : CodePoints := CodePoints.ofText "name"

/-- The bytes of a package file that gives a name. -/
def Gives (bytes : List UInt8) (n : CodePoints) : Prop :=
  ∃ text before after, bytes = text.flatMap String.utf8EncodeChar ∧
    Json.Document (.object (before ++ (nameMember,.string n) :: after)) text ∧
    (∀ m ∈ after, m.1 ≠ nameMember) ∧ n ≠ CodePoints.ofText ""

/-- The package file of a project gives it a name. -/
def GivesName (fs : FileSystem) (root : Path) (n : CodePoints) : Prop :=
  ∃ loc bytes, fs.status (root.child "package.json") = .ok (loc,.file bytes) ∧ Gives bytes n

/-- A project is called by the name that its package file gives, else by that of its directory. -/
def Called (fs : FileSystem) (root : Path) (n : CodePoints) : Prop :=
  GivesName fs root n ∨ (∀ m, ¬ GivesName fs root m) ∧ n = root.name

/-- The package file of a project is not refused for a length, and it has no container inside more others
than the stack has room for. -/
structure Examinable (fs : FileSystem) (room : Nat) (root : Path) : Prop where
  clear : fs.Clear (root.child "package.json")
  shallow : ∀ loc text, fs.status (root.child "package.json") =
    .ok (loc,.file (text.flatMap String.utf8EncodeChar)) → ¬ Json.TooDeep room text

theorem givenName_eq_some_iff {document : Parsed} :
    ((document.member? "name").bind Parsed.string?).filter (· ≠ CodePoints.ofText "") = some n ↔
      ∃ before after, document = .object (before ++ (nameMember,.string n) :: after) ∧
        (∀ m ∈ after, m.1 ≠ nameMember) ∧ n ≠ CodePoints.ofText "" := by
  rw [Option.filter_eq_some_iff, Option.bind_eq_some_iff]
  constructor
  · rintro ⟨⟨v,hmember,hstring⟩,hne⟩
    cases v with
    | string value =>
      cases hstring
      cases document with
      | object members =>
        obtain ⟨before,after,rfl,hafter⟩ := Parsed.member?_eq_some_iff.mp hmember
        exact ⟨before,after,rfl,hafter,by simpa using hne⟩
      | _ => cases hmember
    | _ => cases hstring
  · rintro ⟨before,after,rfl,hafter,hne⟩
    exact ⟨⟨_,Parsed.member?_eq_some_iff.mpr ⟨before,after,rfl,hafter⟩,rfl⟩,by simpa using hne⟩

theorem packageName?_eq {document : Parsed} {text : List Char}
    (hdecode : Utf8.decodeStrict? bytes = some text)
    (hread : Json.read room (Utf8.unifyLineEnds text) = .ok document) :
    packageName? room bytes =
      .ok (((document.member? "name").bind Parsed.string?).filter (· ≠ CodePoints.ofText "")) := by
  unfold packageName?
  rw [hdecode]
  dsimp only
  rw [hread]

/-- What is read once line ends are unified is what the text itself spells. -/
theorem read_unified_iff {text : List Char} {v : Parsed} (h : ¬ Json.TooDeep room text) :
    Json.read room (Utf8.unifyLineEnds text) = .ok v ↔ Json.Document v text := by
  have hshallow : ¬ Json.TooDeep room (Utf8.unifyLineEnds text) := by rwa [Json.tooDeep_unifyLineEnds]
  rw [Json.read_eq_ok_iff hshallow, Json.document_unifyLineEnds]

/-- Bytes that are the form of a text give a name when that text does. -/
theorem gives_iff {text : List Char} (hdecode : Utf8.decodeStrict? bytes = some text) :
    Gives bytes n ↔ ∃ before after, Json.Document (.object (before ++ (nameMember,.string n) :: after)) text ∧
      (∀ m ∈ after, m.1 ≠ nameMember) ∧ n ≠ CodePoints.ofText "" := by
  constructor
  · rintro ⟨text',before,after,hbytes,hrest⟩
    rw [Utf8.decodeStrict?_eq_some_iff.mpr hbytes] at hdecode
    cases hdecode
    exact ⟨before,after,hrest⟩
  · rintro ⟨before,after,hrest⟩
    exact ⟨text,before,after,Utf8.decodeStrict?_eq_some_iff.mp hdecode,hrest⟩

theorem packageName?_of_shallow
    (h : ∀ text, bytes = text.flatMap String.utf8EncodeChar → ¬ Json.TooDeep room text) :
    ∃ found, packageName? room bytes = .ok found ∧ ∀ n, found = some n ↔ Gives bytes n := by
  cases hdecode : Utf8.decodeStrict? bytes with
  | none =>
    refine ⟨none,by rw [packageName?, hdecode],fun n => iff_of_false nofun ?_⟩
    rintro ⟨text,before,after,hbytes,-⟩
    rw [Utf8.decodeStrict?_eq_some_iff.mpr hbytes] at hdecode
    cases hdecode
  | some text =>
    have hshallow := h text (Utf8.decodeStrict?_eq_some_iff.mp hdecode)
    simp only [gives_iff hdecode, ← read_unified_iff hshallow]
    cases hread : Json.read room (Utf8.unifyLineEnds text) with
    | error e =>
      refine ⟨none,?_,fun n => iff_of_false nofun ?_⟩
      · unfold packageName?
        rw [hdecode]
        dsimp only
        rw [hread]
        cases e with
        | nesting container =>
          exact absurd (Json.tooDeep_unifyLineEnds.mp (Json.read_nesting_iff.mp ⟨container,hread⟩)) hshallow
        | _ => rfl
      · rintro ⟨before,after,hspelled,-⟩
        cases hspelled
    | ok document =>
      refine ⟨_,packageName?_eq hdecode hread,fun n => ?_⟩
      simp only [givenName_eq_some_iff, Except.ok.injEq]

theorem packageName?_of_tooDeep {text : List Char} (h : Json.TooDeep room text) :
    ∃ fault, packageName? room (text.flatMap String.utf8EncodeChar) = .error fault := by
  obtain ⟨container,hread⟩ := Json.read_nesting_iff.mpr (Json.tooDeep_unifyLineEnds.mpr h)
  refine ⟨.nesting container,?_⟩
  unfold packageName?
  rw [Utf8.decodeStrict?_eq_some_iff.mpr rfl]
  dsimp only
  rw [hread]

theorem name_of_examinable (h : Examinable fs room root) :
    ∃ n, name fs room root = .ok n ∧ ∀ m, n = m ↔ Called fs root m := by
  have htest := isFile?_of_clear h.clear
  unfold name Called
  simp only [htest]
  cases hfile : fs.hasFile (root.child "package.json") with
  | false =>
    have hnone : ∀ m, ¬ GivesName fs root m := by
      rintro m ⟨loc,bytes,hstatus,-⟩
      rw [hasFile_iff.mpr ⟨loc,bytes,hstatus⟩] at hfile
      cases hfile
    exact ⟨root.name,rfl,fun m => by simp [hnone, eq_comm]⟩
  | true =>
    obtain ⟨loc,bytes,hstatus⟩ := hasFile_iff.mp hfile
    have hgives : ∀ m, GivesName fs root m ↔ Gives bytes m := by
      intro m
      constructor
      · rintro ⟨loc',bytes',hstatus',hm⟩
        cases hstatus.symm.trans hstatus'
        exact hm
      · exact fun hm => ⟨loc,bytes,hstatus,hm⟩
    obtain ⟨found,hpackage,hfound⟩ := @packageName?_of_shallow room bytes fun text hbytes =>
      h.shallow loc text (hbytes ▸ hstatus)
    refine ⟨found.getD root.name,?_,fun m => ?_⟩
    · rw [read_of_status hstatus]
      dsimp only
      rw [hpackage]
      rfl
    · simp only [hgives, ← hfound]
      cases found with
      | none => simp [eq_comm]
      | some n => simp

theorem name_of_not_clear (h : ¬ fs.Clear (root.child "package.json")) :
    name fs room root = .error (.file ⟨.nameTooLong,root.child "package.json"⟩) := by
  have htest : fs.isFile? (root.child "package.json") = .error ⟨.nameTooLong,root.child "package.json"⟩ :=
    test_of_not_clear h
  unfold name
  simp only [htest]

theorem name_of_not_examinable (h : ¬ Examinable fs room root) :
    ∃ fault, name fs room root = .error fault := by
  by_cases hclear : fs.Clear (root.child "package.json")
  · obtain ⟨loc,text,hstatus,hdeep⟩ : ∃ loc text, fs.status (root.child "package.json") =
        .ok (loc,.file (text.flatMap String.utf8EncodeChar)) ∧ Json.TooDeep room text := by
      by_contra hnone
      push Not at hnone
      exact h ⟨hclear,hnone⟩
    have htest := isFile?_of_clear hclear
    rw [hasFile_iff.mpr ⟨_,_,hstatus⟩] at htest
    obtain ⟨fault,hpackage⟩ := packageName?_of_tooDeep hdeep
    refine ⟨fault,?_⟩
    unfold name
    simp only [htest]
    rw [read_of_status hstatus]
    dsimp only
    rw [hpackage]
    rfl
  · exact ⟨_,name_of_not_clear hclear⟩

theorem examinable_of_name (h : name fs room root = .ok n) : Examinable fs room root := by
  by_contra hfails
  obtain ⟨fault,hfault⟩ := name_of_not_examinable hfails
  cases h.symm.trans hfault

/-- A project gets the name that it is called by, and so does every analysis of it. -/
structure Identified (fs : FileSystem) (room : Nat) (root : Path) : Prop where
  named : ∃ n, name fs room root = .ok n
  called : ∀ n, name fs room root = .ok n ↔ Called fs root n
  analysed : ∀ settings options stamp text, validate fs (some text) = .ok root →
    ∃ a, (Analysis.ofPath fs room settings options stamp (some text)).outcome.1 = .ok a ∧
      Called fs root a.projectName

/-- A project gets the name it is called by exactly when its package file can be examined. -/
theorem identified_iff (fs : FileSystem) (room : Nat) (root : Path) :
    Identified fs room root ↔ Examinable fs room root := by
  constructor
  · intro h
    obtain ⟨n,hname⟩ := h.named
    exact examinable_of_name hname
  · intro h
    obtain ⟨n,hname,hcalled⟩ := name_of_examinable h
    refine ⟨⟨n,hname⟩,fun m => ?_,fun settings options stamp text hv => ?_⟩
    · rw [hname, Except.ok.injEq, hcalled]
    · have hrun := @Analysis.run_outcome fs room settings stamp root options n hname
      exact ⟨_,by rw [Analysis.ofPath, hv]; exact hrun,(hcalled n).mp rfl⟩

def packaged (entry : Entry) : FileSystem :=
  ⟨[(["p"],.directory), (["p","package.json"],entry)],[]⟩

theorem packaged_validate (entry : Entry) :
    validate (packaged entry) (some "/p") = .ok (Path.mk .root ["p"]) :=
  validate_of_directory (by decide) rfl rfl

def renamed : Entry :=
  .file ("\x7b\"name\": \"old\",\r\n \"tags\": [1.5e3, NaN], \"name\": \"l\\u00e4den\"\x7d".toList.flatMap
    String.utf8EncodeChar)

theorem identified_renamed : Examinable (packaged renamed) 900 (Path.mk .root ["p"]) ∧
    Identified (packaged renamed) 900 (Path.mk .root ["p"]) ∧
    Called (packaged renamed) (Path.mk .root ["p"]) "läden" := by
  have hname : name (packaged renamed) 900 (Path.mk .root ["p"]) = .ok "läden" := by decide +kernel
  have hexaminable := examinable_of_name hname
  have hidentified := (identified_iff _ _ _).mpr hexaminable
  exact ⟨hexaminable,hidentified,(hidentified.called _).mp hname⟩

/-- A project whose package file is a link to a name that is too long gets no name and no analysis. -/
theorem package_overlong_link :
    validate (packaged (.link overlong)) (some "/p") = .ok (Path.mk .root ["p"]) ∧
    ∀ room, name (packaged (.link overlong)) room (Path.mk .root ["p"]) =
        .error (.file ⟨.nameTooLong,Path.mk .root ["p","package.json"]⟩) ∧
      (∀ settings options stamp, (Analysis.ofPath (packaged (.link overlong)) room settings options
        stamp (some "/p")).outcome.1 =
          .error (.file ⟨.nameTooLong,Path.mk .root ["p","package.json"]⟩)) ∧
      ¬ Identified (packaged (.link overlong)) room (Path.mk .root ["p"]) := by
  have hp : (packaged (.link overlong)).IsReal ["p"] := isReal_nil.snoc (by decide) rfl
  have hpackage : FileSystem.entry? (packaged (.link overlong)) (["p"] ++ ["package.json"]) =
      some (.link overlong) := rfl
  have hstatus := @status_of_overlong_link _ ["p"] [] _ _ _ hp (by decide) hpackage pieces_overlong
    unfit_overlong
  refine ⟨packaged_validate _,fun room => ?_⟩
  have hname : name (packaged (.link overlong)) room (Path.mk .root ["p"]) =
      .error (.file ⟨.nameTooLong,Path.mk .root ["p","package.json"]⟩) :=
    name_of_not_clear (not_clear_iff.mpr ⟨hstatus,by decide⟩)
  refine ⟨hname,fun settings options stamp => ?_,fun h => ?_⟩
  · rw [Analysis.ofPath, packaged_validate]
    exact Analysis.run_outcome_error hname
  · obtain ⟨n,hn⟩ := h.named
    cases hname.symm.trans hn

/-- Whatever room there is, a project whose package file opens more arrays, one in the other, gets no
name. -/
theorem package_deep (room : Nat) :
    ¬ Identified (packaged (.file ((List.replicate (room + 1) '[').flatMap String.utf8EncodeChar))) room
      (Path.mk .root ["p"]) := by
  rw [identified_iff]
  intro h
  exact h.shallow ["p","package.json"] _ rfl (Json.tooDeep_brackets room)

end Project
end WebAtlas
