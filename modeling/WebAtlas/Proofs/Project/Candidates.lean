import WebAtlas.Proofs.FileSystem.Overlong
import WebAtlas.Proofs.Import.Probing

/-! # What a request finds

A request below the project root stands for its own path, for that path with an extension and for an
index file in it. The first of these that leads to a file is shown when the file lies in the project and
denied when it does not, and the request is answered as missing when none leads to a file. This holds
exactly when no path that is tried before the file is too long to be tested.
-/
namespace WebAtlas
open FileSystem
variable {fs : FileSystem} {home : Location} {project request name : String} {paths : List Path} {p : Path}

namespace FileSystem

/-- The paths that are tried before the first that leads to a file. -/
def beforeFile (fs : FileSystem) (paths : List Path) : List Path := paths.takeWhile (!fs.hasFile ·)

theorem clear_of_hasFile (h : fs.hasFile p = true) : fs.Clear p := by
  obtain ⟨loc,bytes,hs⟩ := hasFile_iff.mp h
  simp [Clear, hs]

theorem find?_hasFile_eq_none :
    paths.find? fs.hasFile = none ↔ ∀ p ∈ paths, fs.hasFile p = false := by
  simp only [List.find?_eq_none, Bool.not_eq_true]

/-- The first file is found when no test before it is refused. -/
theorem firstFile?_of_clear (h : ∀ p ∈ fs.beforeFile paths, fs.Clear p) :
    fs.firstFile? paths = .ok (paths.find? fs.hasFile) := by
  induction paths with
  | nil => rfl
  | cons q paths ih =>
    unfold beforeFile at h ih
    cases hq : fs.hasFile q with
    | true =>
      rw [firstFile?, isFile?_of_clear (clear_of_hasFile hq), hq, List.find?_cons_of_pos hq]
    | false =>
      rw [List.takeWhile_cons_of_pos (by simp [hq])] at h
      obtain ⟨hclear,hrest⟩ := List.forall_mem_cons.mp h
      rw [firstFile?, isFile?_of_clear hclear, hq, List.find?_cons_of_neg (by simp [hq])]
      exact ih hrest

/-- A test that is refused before the first file ends the search. -/
theorem firstFile?_of_not_clear (h : ∃ p ∈ fs.beforeFile paths, ¬ fs.Clear p) :
    ∃ e, fs.firstFile? paths = .error e := by
  induction paths with
  | nil =>
    obtain ⟨p,hp,-⟩ := h
    cases hp
  | cons q paths ih =>
    unfold beforeFile at h ih
    obtain ⟨p,hp,hrefused⟩ := h
    cases hq : fs.hasFile q with
    | true =>
      rw [List.takeWhile_cons_of_neg (by simp [hq])] at hp
      cases hp
    | false =>
      rw [List.takeWhile_cons_of_pos (by simp [hq])] at hp
      by_cases hclear : fs.Clear q
      · obtain ⟨e,he⟩ : ∃ e, fs.firstFile? paths = .error e := by
          rcases List.mem_cons.mp hp with rfl | hp
          · exact absurd hclear hrefused
          · exact ih ⟨p,hp,hrefused⟩
        exact ⟨e,by rw [firstFile?, isFile?_of_clear hclear, hq]; exact he⟩
      · exact ⟨_,by rw [firstFile?, isFile?, test_of_not_clear hclear]⟩

end FileSystem

namespace FileView

/-- The paths that are tried for a request in the project at `home`, in their order. -/
def tried (home : Location) (request : String) : List Path :=
  candidates (requestedPath (Path.mk .root home) request)

/-- The answer to a request in the project at `home` goes by the first of its paths that leads to a file. -/
structure Probed (fs : FileSystem) (home : Location) (request : String)
    (answer : Except Fault FileView) : Prop where
  missing : answer = .error (.sourceMissing request) ↔ ∀ p ∈ tried home request, fs.hasFile p = false
  first : ∀ p, (tried home request).find? fs.hasFile = some p →
    ∃ loc bytes, fs.status p = .ok (loc,.file bytes) ∧
      answer = if (Path.mk .root home).isBelow (Path.mk .root loc) then .ok (ofFile p bytes)
        else .error .outsideProject

/-- An answer that goes by the first file is never the refusal of a test. -/
theorem Probed.ne_file {answer : Except Fault FileView} (h : Probed fs home request answer)
    (e : FileError) : answer ≠ .error (.file e) := by
  rintro rfl
  cases hfind : (tried home request).find? fs.hasFile with
  | none => cases h.missing.mpr (find?_hasFile_eq_none.mp hfind)
  | some p =>
    obtain ⟨loc,bytes,-,hanswer⟩ := h.first p hfind
    split at hanswer <;> cases hanswer

theorem probed_of_none {answer : Except Fault FileView} (hfind : (tried home request).find? fs.hasFile = none)
    (h : answer = .error (.sourceMissing request)) : Probed fs home request answer where
  missing := iff_of_true h (find?_hasFile_eq_none.mp hfind)
  first p hp := by cases hfind.symm.trans hp

theorem probed_of_some {answer : Except Fault FileView} {loc : Location} {bytes : List UInt8}
    (hfind : (tried home request).find? fs.hasFile = some p) (hs : fs.status p = .ok (loc,.file bytes))
    (h : answer = if (Path.mk .root home).isBelow (Path.mk .root loc) then .ok (ofFile p bytes)
      else .error .outsideProject) : Probed fs home request answer where
  missing := by
    refine iff_of_false ?_ ?_
    · rw [h]
      split <;> simp
    · intro hnone
      rw [find?_hasFile_eq_none.mpr hnone] at hfind
      cases hfind
  first q hq := by
    obtain rfl := Option.some.inj (hfind.symm.trans hq)
    exact ⟨loc,bytes,hs,h⟩

section Below
variable (hwd : fs.IsReal fs.workingDirectory)
  (hroot : fs.resolve (Path.parse project) = .ok (Path.mk .root home))
  (hw : (Path.mk .root home).Within (requestedPath (Path.mk .root home) request))
include hroot hw

theorem clear_of_probed (h : Probed fs home request (read fs project request)) :
    ∀ p ∈ fs.beforeFile (tried home request), fs.Clear p := by
  intro p hp
  by_contra hrefused
  obtain ⟨e,he⟩ := firstFile?_of_not_clear ⟨p,hp,hrefused⟩
  refine h.ne_file e ?_
  unfold tried at he
  rw [read_of_within hroot hw, he]

include hwd

/-- A file that is found and can be traced is shown or denied by where it lies. -/
theorem read_of_first {loc : Location} {bytes : List UInt8}
    (hf : fs.firstFile? (tried home request) = .ok (some p)) (hfit : fs.LinksFit p)
    (hs : fs.status p = .ok (loc,.file bytes)) : read fs project request =
      if (Path.mk .root home).isBelow (Path.mk .root loc) then .ok (ofFile p bytes)
      else .error .outsideProject := by
  unfold tried at hf
  rw [read_of_within hroot hw, hf]
  dsimp only
  rw [hfit.resolve hwd hs]
  dsimp only
  rw [read_of_status hs]
  cases (Path.mk .root home).isBelow (Path.mk .root loc) <;> rfl

theorem probed_of_clear
    (hfound : ∀ p, (tried home request).find? fs.hasFile = some p → fs.LinksFit p)
    (h : ∀ p ∈ fs.beforeFile (tried home request), fs.Clear p) :
    Probed fs home request (read fs project request) := by
  have hfirst := firstFile?_of_clear h
  cases hfind : (tried home request).find? fs.hasFile with
  | none =>
    rw [hfind, tried] at hfirst
    exact probed_of_none hfind (by rw [read_of_within hroot hw, hfirst])
  | some p =>
    rw [hfind] at hfirst
    obtain ⟨loc,bytes,hs⟩ := hasFile_iff.mp (List.find?_some hfind)
    exact probed_of_some hfind hs (read_of_first hwd hroot hw hfirst (hfound p hfind) hs)

end Below

/-- A request below the project root is answered by the first of its paths that leads to a file exactly
when no test before that file is refused for a length. -/
theorem read_probed_iff (hwd : fs.IsReal fs.workingDirectory)
    (hproject : fs.status (Path.parse project) = .ok (home,.directory))
    (hlinks : fs.LinksFit (Path.parse project))
    (hbelow : (Path.mk .root home).isBelow (requestedPath (Path.mk .root home) request) = true)
    (hfound : ∀ p, (tried home request).find? fs.hasFile = some p → fs.LinksFit p) :
    Probed fs home request (read fs project request) ↔
      ∀ p ∈ fs.beforeFile (tried home request), fs.Clear p := by
  have hroot := hlinks.resolve hwd hproject
  have hw : (Path.mk .root home).Within (requestedPath (Path.mk .root home) request) :=
    Path.within_iff.mpr (.inr hbelow)
  exact ⟨clear_of_probed hroot hw,probed_of_clear hwd hroot hw hfound⟩

theorem linkedProject_links : linkedProject.LinksFit (Path.parse "/p") ∧
    linkedProject.LinksFit (Path.mk .root ["p","out.ts"]) := by
  have hp : linkedProject.Leads [] ["p"] ["p"] .directory [] := .enter (by decide) rfl (.here _)
  have hlink : linkedProject.Leads ["p"] ["out.ts"] ["secret"] (.file [115]) [["p","out.ts"]] :=
    .link (by decide) rfl (.up (.file (by decide) rfl))
  exact ⟨linksFit_of_leads rfl hp nofun,
    linksFit_of_leads rfl (hp.append rfl hlink) (List.forall_mem_singleton.mpr (by decide))⟩

/-- The first file for a request is a link out of the project. -/
theorem read_probed_linkedProject : linkedProject.IsReal linkedProject.workingDirectory ∧
    linkedProject.status (Path.parse "/p") = .ok (["p"],.directory) ∧
    linkedProject.LinksFit (Path.parse "/p") ∧
    (Path.mk .root ["p"]).isBelow (requestedPath (Path.mk .root ["p"]) "out") = true ∧
    (∀ p, (tried ["p"] "out").find? linkedProject.hasFile = some p → linkedProject.LinksFit p) ∧
    Probed linkedProject ["p"] "out" (read linkedProject "/p" "out") ∧
    read linkedProject "/p" "out" = .error .outsideProject := by
  obtain ⟨hlinks,hout⟩ := linkedProject_links
  have hfind : (tried ["p"] "out").find? linkedProject.hasFile = some (Path.mk .root ["p","out.ts"]) := by
    decide +kernel
  have hfound : ∀ p, (tried ["p"] "out").find? linkedProject.hasFile = some p →
      linkedProject.LinksFit p := by
    intro p hp
    obtain rfl := Option.some.inj (hfind.symm.trans hp)
    exact hout
  have hclear : ∀ p ∈ linkedProject.beforeFile (tried ["p"] "out"), linkedProject.Clear p := by
    decide +kernel
  have hbelow : (Path.mk .root ["p"]).isBelow (requestedPath (Path.mk .root ["p"]) "out") = true := by
    decide
  exact ⟨isReal_nil,rfl,hlinks,hbelow,hfound,
    (read_probed_iff isReal_nil rfl hlinks hbelow hfound).mpr hclear,rfl⟩

/-- A request for a name that is absent and that an extension makes too long ends at that extension. -/
theorem read_of_stretched (hroot : fs.resolve (Path.parse project) = .ok (Path.mk .root home))
    (hhome : fs.IsReal home) (hplain : Path.Plain (home ++ [name ++ ".tsx"]))
    (hrequest : requestedPath (Path.mk .root home) request = Path.mk .root (home ++ [name]))
    (habsent : fs.status (Path.mk .root (home ++ [name])) = .error .missing)
    (hlong : nameFault? (name ++ ".tsx") = some .nameTooLong) : read fs project request =
      .error (.file ⟨.nameTooLong,Path.mk .root (home ++ [name ++ ".tsx"])⟩) := by
  have hw : (Path.mk .root home).Within (requestedPath (Path.mk .root home) request) :=
    hrequest ▸ ⟨rfl,List.prefix_append ..⟩
  obtain ⟨hvoid,hup,-⟩ := hplain (name ++ ".tsx") (by simp)
  have hstatus := @status_of_overlong fs home [] (name ++ ".tsx") hhome ⟨hvoid,hup,hlong⟩
  have hnull : (home ++ [name ++ ".tsx"]).any Path.holdsNull = false := by
    rw [List.any_append, List.any_cons, (nameFault?_eq_nameTooLong.mp hlong).1]
    simpa using fun n hn => (nameFault?_eq_none.mp (hhome.names n hn).2.2).1
  have htest : fs.isFile? ((Path.mk .root (home ++ [name])).append ".tsx") =
      .error ⟨.nameTooLong,Path.mk .root (home ++ [name ++ ".tsx"])⟩ := by
    rw [Path.append_snoc hplain.written]
    exact test_of_not_clear (not_clear_iff.mpr ⟨hstatus,hnull⟩)
  have hfirst : fs.firstFile? (candidates (Path.mk .root (home ++ [name]))) =
      .error ⟨.nameTooLong,Path.mk .root (home ++ [name ++ ".tsx"])⟩ := by
    rw [candidates, extensions, List.map_cons, List.cons_append, List.cons_append, firstFile?,
      isFile?_of_absent habsent]
    dsimp only
    rw [firstFile?, htest]
  rw [read_of_within hroot hw, hrequest, hfirst]

theorem requestedPath_name {site : Location} (hs : ∀ s ∈ site, s ≠ "..") (hn : Path.Plain [name]) :
    requestedPath (Path.mk .root site) name = Path.mk .root (site ++ [name]) := by
  have hparse := Path.parse_plain hn
  rw [String.intercalate_singleton] at hparse
  rw [requestedPath, hparse]
  exact Path.normalize_of_forall_ne (List.forall_mem_append.mpr ⟨hs,fun n hm => (hn n hm).2.1⟩)

def stretched : String := String.ofList (List.replicate 252 'n')

theorem utf8ByteSize_stretched : stretched.utf8ByteSize = 252 := utf8ByteSize_letters _

theorem names_stretched : Names stretched := names_letters (by decide) (by decide)

theorem plain_stretched : Path.Plain [stretched] :=
  Path.plain_singleton names_stretched.1 names_stretched.2.1 (slash_not_mem_letters _)

def bare : FileSystem := ⟨[(["p"],.directory)],[]⟩

theorem bare_hasFile (p : Path) : bare.hasFile p = false := by
  rw [Bool.eq_false_iff]
  intro hfile
  obtain ⟨loc,bytes,hs⟩ := hasFile_iff.mp hfile
  obtain ⟨-,_,-,hl⟩ := status_eq_ok_iff.mp hs
  have horigin : bare.origin p = [] := ite_self _
  rw [horigin] at hl
  obtain ⟨-,hentry,-⟩ := hl.real isReal_nil
  by_cases hloc : loc = []
  · rw [hloc] at hentry
    cases hentry
  · have hmem := mem_entries_of_eq hentry hloc
    cases List.mem_singleton.mp hmem

/-- The request for a name that is absent is not answered as missing when an extension makes the name
too long. -/
theorem stretched_not_missing : bare.status (Path.parse "/p") = .ok (["p"],.directory) ∧
    (Path.mk .root ["p"]).isBelow (requestedPath (Path.mk .root ["p"]) stretched) = true ∧
    (∀ p, bare.hasFile p = false) ∧
    read bare "/p" stretched =
      .error (.file ⟨.nameTooLong,Path.mk .root ["p",stretched ++ ".tsx"]⟩) ∧
    ¬ Probed bare ["p"] stretched (read bare "/p" stretched) := by
  have hp : bare.IsReal ["p"] := isReal_nil.snoc (by decide) rfl
  have hroot : bare.resolve (Path.parse "/p") = .ok (Path.mk .root ["p"]) := rfl
  have hplain : Path.Plain (["p"] ++ [stretched ++ ".tsx"]) :=
    Path.Plain.append (by decide) (plain_extension plain_stretched (by decide))
  have hrequest := @requestedPath_name stretched ["p"] (by decide) plain_stretched
  have habsent : bare.status (Path.mk .root (["p"] ++ [stretched])) = .error .missing := by
    have hentry : bare.entry? (["p"] ++ [stretched]) = none := by decide +kernel
    have hfits : Fits ["p",stretched] := by
      have hsize : "p".utf8ByteSize = 1 := rfl
      rw [Fits, Path.utf8ByteSize_text]
      simp [utf8ByteSize_stretched, hsize, pathLimit]
    exact @status_of_absent bare ["p"] [] stretched hp names_stretched hentry hfits
  have hlong : nameFault? (stretched ++ ".tsx") = some .nameTooLong := by
    refine nameFault?_eq_nameTooLong.mpr ⟨?_,?_⟩
    · have hnull := (nameFault?_eq_none.mp names_stretched.2.2).1
      rw [Path.holdsNull, List.contains_eq_mem, decide_eq_false_iff_not] at hnull ⊢
      simp [hnull]
    · have hsize : ".tsx".utf8ByteSize = 4 := rfl
      rw [String.utf8ByteSize_append, utf8ByteSize_stretched, hsize]
      decide
  have hread := read_of_stretched hroot hp hplain hrequest habsent hlong
  refine ⟨rfl,?_,bare_hasFile,hread,?_⟩
  · rw [hrequest]
    decide
  · rw [hread]
    exact fun h => h.ne_file _ rfl

end FileView
end WebAtlas
