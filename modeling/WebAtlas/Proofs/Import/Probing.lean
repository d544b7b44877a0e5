import WebAtlas.Import.Resolution
import WebAtlas.Proofs.Project.Isolation
import Mathlib.Data.List.Forall2

/-! # Two ways to complete a path

A relative specifier in the project root and a request for the same path are completed by the same
endings where they both can be, but the two rank them differently. So what they find is the same file,
unless two files exist that are ranked the other way round.
-/
namespace WebAtlas
open FileSystem
variable {fs : FileSystem} {site : Location} {project request aliasPrefix : String}

/-- What a request may lack, in the order in which it is tried. -/
def FileView.endings : List String := "" :: extensions ++ indexFiles.map ("/" ++ ·)

/-- Endings of which an import takes the first and a request the second when both lead to a file. -/
def Import.rivals : List (String × String) :=
  [(".ts",".tsx"), (".js",".jsx"), ("/index.ts","/index.tsx"), ("/index.js","/index.jsx")] ++
    ["/index.ts","/index.tsx","/index.js","/index.jsx"].flatMap fun index =>
      [".mjs",".cjs",".json",".css",".scss",".md"].map (index,·)

theorem idxOf_find?_le {α : Type} [DecidableEq α] {test : α → Bool} {ranked : List α} {a b : α}
    (h : ranked.find? test = some a) (hb : test b = true) : ranked.idxOf a ≤ ranked.idxOf b := by
  induction ranked with
  | nil => cases h
  | cons x ranked ih =>
    cases hx : test x with
    | true =>
      rw [List.find?_cons_of_pos hx] at h
      cases h
      simp
    | false =>
      rw [List.find?_cons_of_neg (by simp [hx])] at h
      have ha : x ≠ a := by
        rintro rfl
        have hpass := List.find?_some h
        simp [hx] at hpass
      have hne : x ≠ b := by
        rintro rfl
        simp [hx] at hb
      rw [List.idxOf_cons_ne _ ha, List.idxOf_cons_ne _ hne]
      exact Nat.succ_le_succ (ih h)

/-- The endings that two rankings choose are one and the same or rivals. -/
theorem Import.endings_rank : ∀ e ∈ Import.endings, ∀ e' ∈ FileView.endings,
    Import.endings.idxOf e ≤ Import.endings.idxOf e' →
    FileView.endings.idxOf e' ≤ FileView.endings.idxOf e → e = e' ∨ (e,e') ∈ Import.rivals := by
  decide +kernel

theorem Import.mem_endings {ending : String} (h : ending ∈ Import.endings) : ending = "" ∨
    (∃ tail, ending = "." ++ tail ∧ tail ≠ "" ∧ '.' ∉ tail.toList ∧ ending ∈ FileView.extensions) ∨
    ∃ index ∈ FileView.indexFiles, ending = "/" ++ index := by
  simp only [Import.endings, List.mem_cons, List.not_mem_nil, or_false] at h
  rcases h with rfl | rfl | rfl | rfl | rfl | rfl | rfl | rfl | rfl
  · exact .inl rfl
  · exact .inr (.inl ⟨"ts",by decide⟩)
  · exact .inr (.inl ⟨"tsx",by decide⟩)
  · exact .inr (.inl ⟨"js",by decide⟩)
  · exact .inr (.inl ⟨"jsx",by decide⟩)
  · exact .inr (.inr ⟨"index.ts",by decide⟩)
  · exact .inr (.inr ⟨"index.tsx",by decide⟩)
  · exact .inr (.inr ⟨"index.js",by decide⟩)
  · exact .inr (.inr ⟨"index.jsx",by decide⟩)

/-- The first file among some paths bears the first ending that leads to a file, when each path leads
where its ending does. -/
theorem FileSystem.find?_of_firstFile? {paths : List Path} {endings : List String}
    {completed : String → Path} {p : Path}
    (h : List.Forall₂ (fun q e => fs.status q = fs.status (completed e)) paths endings)
    (hf : fs.firstFile? paths = .ok (some p)) :
    ∃ e, endings.find? (fs.hasFile ∘ completed) = some e ∧ fs.status p = fs.status (completed e) := by
  induction h with
  | nil => cases hf
  | @cons q e paths endings hq _ ih =>
    rw [firstFile?] at hf
    have htest : fs.isFile? q = .ok true ↔ fs.hasFile (completed e) = true := by
      rw [hasFile_iff, ← hq]
      refine ⟨isFile?_eq_true,?_⟩
      rintro ⟨_,_,hs⟩
      exact isFile?_of_status hs
    split at hf
    · rename_i ht
      cases hf
      exact ⟨e,List.find?_cons_of_pos (htest.mp ht),hq⟩
    · rename_i ht
      have hno : ¬ fs.hasFile (completed e) = true := fun hyes => by
        rw [htest.mpr hyes] at ht
        cases ht
      obtain ⟨e',he',hs⟩ := ih hf
      refine ⟨e',?_,hs⟩
      simpa only [List.find?_cons, Function.comp_apply, hno] using he'
    · cases hf

theorem parse_dot_slash (h : (Path.parse request).isAbsolute = false) :
    Path.parse ("./" ++ request) = Path.parse request := by
  have hpieces : Path.pieces ("./" ++ request) = "." :: Path.pieces request := by
    simp [Path.pieces, Text.splitOn, List.splitOn_cons_eq_if_modifyHead]
  have hanchor : Anchor.ofChars request.toList = .relative := by
    simpa [Path.isAbsolute, Path.parse] using h
  rw [Path.parse, Path.parse, hpieces, hanchor, List.filter_cons_of_neg (by decide)]
  simp [Anchor.ofChars]

/-- From a file in the root a relative specifier means the path that a request for it means. -/
theorem Import.base_eq {root importer : Path} (hi : importer.parent = root)
    (hr : (Path.parse request).isAbsolute = false)
    (ha : Import.afterAlias? aliasPrefix ("./" ++ request) = none) :
    Import.base root importer aliasPrefix ("./" ++ request) = FileView.requestedPath root request := by
  simp only [Import.base, ha, hi, parse_dot_slash hr]
  rfl

theorem status_append_index {names : List String} (hn : Path.Plain names) {index : String}
    (h : index ∈ FileView.indexFiles) : fs.status ((Path.mk .root names).child index) =
      fs.status ((Path.mk .root names).append ("/" ++ index)) := by
  rcases List.eq_nil_or_concat names with rfl | ⟨init,last,rfl⟩
  · have hslashes : ∀ index ∈ FileView.indexFiles,
        (Path.mk .root []).append ("/" ++ index) = ⟨.doubleRoot,[index]⟩ ∧
        (Path.mk .root [index]).text.utf8ByteSize ≤ pathLimit ∧
        (Path.mk .doubleRoot [index]).text.utf8ByteSize ≤ pathLimit := by
      decide
    obtain ⟨happend,hshort,hshort'⟩ := hslashes index h
    have hchild : (Path.mk .root []).child index = Path.mk .root [index] := rfl
    rw [happend, hchild]
    unfold status locate
    rw [if_neg (Nat.not_lt.mpr hshort), if_neg (Nat.not_lt.mpr hshort')]
    rfl
  · rw [List.concat_eq_append] at hn ⊢
    have hindex := hn.append (FileView.plain_indexFile h)
    rw [List.append_assoc] at hindex
    rw [Path.append_slash hindex.written]
    simp [Path.child]

theorem FileView.candidates_endings {names : List String} (hn : Path.Plain names) :
    List.Forall₂ (fun q e => fs.status q = fs.status ((Path.mk .root names).append e))
      (candidates (Path.mk .root names)) endings := by
  have hself : (Path.mk .root names).append "" = Path.mk .root names := by
    rw [Path.append, String.append_empty, Path.parse_text_root hn]
  refine List.rel_append (List.Forall₂.cons (by rw [hself]) ?_) ?_
  · exact List.forall₂_map_left_iff.mpr (List.forall₂_same.mpr fun e _ => rfl)
  · rw [List.forall₂_map_left_iff, List.forall₂_map_right_iff, List.forall₂_same]
    exact fun index hindex => status_append_index hn hindex

/-- A relative import in the root of a project and a request for the same path find the same file, or
they find two files of which each is ranked first by the one that finds it. -/
theorem FileView.read_resolved {importer found : Path} {view : FileView} (hs : Path.Plain site)
    (hroot : fs.resolve (Path.parse project) = .ok (Path.mk .root site))
    (himporter : importer.parent = Path.mk .root site)
    (hrelative : (Path.parse request).isAbsolute = false)
    (halias : Import.afterAlias? aliasPrefix ("./" ++ request) = none)
    (hfound : Import.resolve fs (Path.mk .root site) importer aliasPrefix ("./" ++ request) = some found)
    (hview : read fs project request = .ok view) :
    ∃ viewed bytes, view = ofFile viewed bytes ∧ fs.read viewed = .ok bytes ∧
      ((∃ loc, fs.status found = .ok (loc,.file bytes) ∧ fs.status viewed = .ok (loc,.file bytes)) ∨
        ∃ r ∈ Import.rivals, found = (requestedPath (Path.mk .root site) request).append r.1 ∧
          fs.status viewed =
            fs.status ((requestedPath (Path.mk .root site) request).append r.2)) := by
  obtain ⟨hw,viewed,bytes,hfirst,-,hread,rfl⟩ := read_first hroot hview
  obtain ⟨names,hn,hrequested⟩ := requestedPath_below hs hw
  rw [hrequested] at hfirst
  obtain ⟨e',he',hviewed⟩ := find?_of_firstFile? (candidates_endings (hs.append hn)) hfirst
  rw [Import.resolve, Import.base_eq himporter hrelative halias, hrequested, Import.candidates,
    List.find?_map, Option.map_eq_some_iff] at hfound
  obtain ⟨e,he,rfl⟩ := hfound
  have hle := idxOf_find?_le he (List.find?_some he')
  have hle' := idxOf_find?_le he' (List.find?_some he)
  have hrank := Import.endings_rank e (List.mem_of_find?_eq_some he) e' (List.mem_of_find?_eq_some he')
    hle hle'
  refine ⟨viewed,bytes,rfl,hread,?_⟩
  rcases hrank with rfl | hrival
  · obtain ⟨loc,hloc⟩ := status_of_read hread
    exact .inl ⟨loc,hviewed ▸ hloc,hloc⟩
  · exact .inr ⟨(e,e'),hrival,by rw [hrequested],by rw [hrequested]; exact hviewed⟩

/-- A project `p` with a file that both find and two files of which each finds its own. -/
def twinned : FileSystem where
  entries := [(["p"],.directory), (["p","main.ts"],.file []), (["p","lib"],.directory),
    (["p","lib","util.js"],.file [117]), (["p","a.ts"],.file [116]), (["p","a.tsx"],.file [120])]
  workingDirectory := []

theorem FileView.read_resolved_twinned :
    twinned.resolve (Path.parse "/p") = .ok (Path.mk .root ["p"]) ∧
    Import.resolve twinned (Path.mk .root ["p"]) (Path.mk .root ["p","main.ts"]) "@/" "./lib/util" =
      some (Path.mk .root ["p","lib","util.js"]) ∧
    ∃ viewed bytes, read twinned "/p" "lib/util" = .ok (ofFile viewed bytes) ∧
      twinned.status viewed = .ok (["p","lib","util.js"],.file bytes) := by
  have hp : Path.Plain ["p"] := Path.plain_singleton (by decide) (by decide) (by decide)
  have hroot : twinned.resolve (Path.parse "/p") = .ok (Path.mk .root ["p"]) := rfl
  have hfound : Import.resolve twinned (Path.mk .root ["p"]) (Path.mk .root ["p","main.ts"]) "@/"
      ("./" ++ "lib/util") = some (Path.mk .root ["p","lib","util.js"]) := by decide +kernel
  have hview : read twinned "/p" "lib/util" =
      .ok (ofFile (Path.mk .root ["p","lib","util.js"]) [117]) := rfl
  have hstatus : twinned.status (Path.mk .root ["p","lib","util.js"]) =
      .ok (["p","lib","util.js"],.file [117]) := rfl
  obtain ⟨viewed,bytes,hsame,hread,hfile⟩ :=
    read_resolved hp hroot rfl (by decide) (by decide) hfound hview
  refine ⟨hroot,hfound,viewed,bytes,hsame ▸ hview,?_⟩
  rcases hfile with ⟨loc,hloc,hviewed⟩ | ⟨r,hr,hrival,hviewed⟩
  · rw [hstatus, Except.ok.injEq, Prod.mk.injEq] at hloc
    rw [hviewed, hloc.1]
  · have hnone : ∀ r ∈ Import.rivals, Path.mk .root ["p","lib","util.js"] =
        (requestedPath (Path.mk .root ["p"]) "lib/util").append r.1 →
        twinned.hasFile ((requestedPath (Path.mk .root ["p"]) "lib/util").append r.2) = false := by
      decide +kernel
    obtain ⟨loc,hfile⟩ := status_of_read hread
    have hyes := hasFile_iff.mpr ⟨loc,bytes,hviewed ▸ hfile⟩
    rw [hnone r hr hrival] at hyes
    cases hyes

/-- Of two files that differ in their endings only, an import finds one and a request the other. -/
theorem FileView.twins_differ :
    (∀ e ∈ twinned.entries, e.2.isLink = false) ∧
    twinned.resolve (Path.parse "/p") = .ok (Path.mk .root ["p"]) ∧
    Import.resolve twinned (Path.mk .root ["p"]) (Path.mk .root ["p","main.ts"]) "@/" "./a" =
      some (Path.mk .root ["p","a.ts"]) ∧
    read twinned "/p" "a" = .ok (ofFile (Path.mk .root ["p","a.tsx"]) [120]) ∧
    twinned.status (Path.mk .root ["p","a.ts"]) = .ok (["p","a.ts"],.file [116]) ∧
    twinned.status (Path.mk .root ["p","a.tsx"]) = .ok (["p","a.tsx"],.file [120]) :=
  ⟨by decide,rfl,by decide +kernel,rfl,rfl,rfl⟩

end WebAtlas
