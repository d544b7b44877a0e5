import WebAtlas.Proofs.FileSystem.Subtree
import WebAtlas.Proofs.Project.Containment

/-! # What lies outside a project does not show

A view of a project without links depends on the project alone: every path that is tried for a request
below the root lies below the root. The request for the root itself is the exception, since a file may
stand beside the project under its name and an ending.
-/
namespace WebAtlas
open FileSystem
variable {fs fs' : FileSystem} {site : Location} {project request : String}

theorem FileSystem.firstFile?_congr {paths : List Path}
    (h : ∀ p ∈ paths, fs.isFile? p = fs'.isFile? p) : fs.firstFile? paths = fs'.firstFile? paths := by
  induction paths with
  | nil => rfl
  | cons p paths ih =>
    rw [firstFile?, firstFile?, h p List.mem_cons_self, ih fun q hq => h q (List.mem_cons_of_mem _ hq)]

theorem FileSystem.isFile?_of_status {p : Path} {loc : Location} {bytes : List UInt8}
    (h : fs.status p = .ok (loc,.file bytes)) : fs.isFile? p = .ok true := by
  unfold isFile? test
  rw [h]
  rfl

namespace FileView

theorem plain_extension {name ending : String} (hn : Path.Plain [name]) (he : ending ∈ extensions) :
    Path.Plain [name ++ ending] := by
  have hname := (hn name List.mem_cons_self).2.2
  have hending : 3 ≤ ending.length ∧ '/' ∉ ending.toList := by
    revert ending
    decide
  have hlen : 3 ≤ (name ++ ending).length := by
    rw [String.length_append]
    omega
  have hne : ∀ short : String, short.length < 3 → name ++ ending ≠ short := by
    rintro short hshort rfl
    omega
  apply Path.plain_singleton
  · rw [Path.isVoid, Bool.or_eq_false_iff]
    exact ⟨beq_false_of_ne (hne "" (by decide)),beq_false_of_ne (hne "." (by decide))⟩
  · exact hne ".." (by decide)
  · rw [String.toList_append, List.mem_append]
    exact not_or.mpr ⟨hname,hending.2⟩

theorem plain_indexFile {name : String} (h : name ∈ indexFiles) : Path.Plain [name] := by
  have hplain : ∀ name ∈ indexFiles, Path.isVoid name = false ∧ name ≠ ".." ∧ '/' ∉ name.toList := by
    decide
  obtain ⟨hv,hu,hs⟩ := hplain name h
  exact Path.plain_singleton hv hu hs

/-- A path that is tried for a request in the project lies below the root, or it stands beside the
root as the root with an ending. -/
theorem candidates_below {names : List String} {p : Path} (hs : Path.Plain site)
    (hn : Path.Plain names) (hp : p ∈ candidates (Path.mk .root (site ++ names))) :
    (∃ below, Path.Plain below ∧ p = Path.mk .root (site ++ below)) ∨
      site ≠ [] ∧ names = [] ∧ ∃ e ∈ extensions, p = (Path.mk .root site).append e := by
  rcases List.mem_append.mp hp with hp | hp
  · rcases List.mem_cons.mp hp with rfl | hp
    · exact .inl ⟨names,hn,rfl⟩
    · obtain ⟨e,he,rfl⟩ := List.mem_map.mp hp
      rcases List.eq_nil_or_concat names with rfl | ⟨init,last,rfl⟩
      · by_cases hsite : site = []
        · subst hsite
          have hplain : Path.Plain [e] := by
            have hall : ∀ e ∈ extensions, Path.isVoid e = false ∧ e ≠ ".." ∧ '/' ∉ e.toList := by
              decide
            obtain ⟨hv,hu,hslash⟩ := hall e he
            exact Path.plain_singleton hv hu hslash
          exact .inl ⟨[e],hplain,Path.append_root hplain⟩
        · exact .inr ⟨hsite,rfl,e,he,by rw [List.append_nil]⟩
      · rw [List.concat_eq_append] at hn ⊢
        have hinit : Path.Plain init := hn.mono (List.subset_append_left ..)
        have hlast := plain_extension (hn.mono (List.subset_append_right ..)) he
        have hbelow : Path.Plain (init ++ [last ++ e]) := hinit.append hlast
        refine .inl ⟨init ++ [last ++ e],hbelow,?_⟩
        rw [← List.append_assoc, Path.append_snoc (by simpa using (hs.append hbelow).written),
          ← List.append_assoc]
  · obtain ⟨index,hindex,rfl⟩ := List.mem_map.mp hp
    exact .inl ⟨names ++ [index],hn.append (plain_indexFile hindex),by simp [Path.child]⟩

/-- Two file systems that agree on a project without links show the same of it for every request, of
the root itself as long as neither has a file beside it under its name with an ending. -/
theorem read_shared (h : SharedTree fs fs' site) (hs : Path.Plain site)
    (hroot : fs.resolve (Path.parse project) = .ok (Path.mk .root site))
    (hroot' : fs'.resolve (Path.parse project) = .ok (Path.mk .root site))
    (hbeside : requestedPath (Path.mk .root site) request = Path.mk .root site → site ≠ [] →
      ∀ e ∈ extensions, fs.isFile? ((Path.mk .root site).append e) ≠ .ok true ∧
        fs.isFile? ((Path.mk .root site).append e) = fs'.isFile? ((Path.mk .root site).append e)) :
    read fs project request = read fs' project request := by
  by_cases hw : (Path.mk .root site).Within (requestedPath (Path.mk .root site) request)
  · obtain ⟨names,hn,hrequested⟩ := requestedPath_below hs hw
    have hcases : ∀ p ∈ candidates (Path.mk .root (site ++ names)),
        (∃ below, Path.Plain below ∧ p = Path.mk .root (site ++ below)) ∨
          fs.isFile? p ≠ .ok true ∧ fs.isFile? p = fs'.isFile? p := by
      intro p hp
      rcases candidates_below hs hn hp with hbelow | ⟨hsite,rfl,e,he,rfl⟩
      · exact .inl hbelow
      · rw [List.append_nil] at hrequested
        exact .inr (hbeside hrequested hsite e he)
    have htest : ∀ p ∈ candidates (Path.mk .root (site ++ names)), fs.isFile? p = fs'.isFile? p := by
      intro p hp
      rcases hcases p hp with ⟨below,hbelow,rfl⟩ | ⟨-,hsame⟩
      · unfold isFile? test
        rw [h.status fun hm => (hbelow _ hm).2.1 rfl]
      · exact hsame
    rw [read_of_within hroot hw, read_of_within hroot' hw, hrequested, ← firstFile?_congr htest]
    cases hf : fs.firstFile? (candidates (Path.mk .root (site ++ names))) with
    | error e => rfl
    | ok found =>
      cases found with
      | none => rfl
      | some file =>
        obtain ⟨hmem,loc,bytes,hstatus⟩ := firstFile?_eq_some hf
        rcases hcases file hmem with ⟨below,hbelow,rfl⟩ | ⟨hno,-⟩
        · have hread : fs.read (Path.mk .root (site ++ below)) =
              fs'.read (Path.mk .root (site ++ below)) := by
            unfold FileSystem.read
            rw [h.status fun hm => (hbelow _ hm).2.1 rfl]
          simp only [h.resolve hs hbelow, hread]
        · exact absurd (isFile?_of_status hstatus) hno
  · rw [read_of_not_within hroot hw, read_of_not_within hroot' hw]

/-- A project `p` with an index file and a file in a directory. -/
def plot : List (Location × Entry) :=
  [(["p"],.directory), (["p","index.tsx"],.file [105]), (["p","lib"],.directory),
    (["p","lib","a.ts"],.file [97])]

def secluded : FileSystem := ⟨plot ++ [],[]⟩

def neighboured : FileSystem := ⟨plot ++ [(["p.tsx"],.file [120]), (["q"],.link "p")],[]⟩

theorem plot_shared : SharedTree secluded neighboured ["p"] := by
  have hreal : (FileSystem.mk plot []).IsReal ["p"] := isReal_nil.snoc (by decide) rfl
  exact sharedTree_append hreal (by decide) (by decide) (by decide)

theorem plot_resolve : secluded.resolve (Path.parse "/p") = .ok (Path.mk .root ["p"]) ∧
    neighboured.resolve (Path.parse "/p") = .ok (Path.mk .root ["p"]) := ⟨rfl,rfl⟩

theorem read_shared_plot : SharedTree secluded neighboured ["p"] ∧ Path.Plain ["p"] ∧
    read secluded "/p" "lib/./a" = read neighboured "/p" "lib/./a" ∧
    read neighboured "/p" "lib/./a" = .ok (ofFile (Path.mk .root ["p","lib","a.ts"]) [97]) := by
  have hp : Path.Plain ["p"] := Path.plain_singleton (by decide) (by decide) (by decide)
  obtain ⟨hroot,hroot'⟩ := plot_resolve
  have hrequest : requestedPath (Path.mk .root ["p"]) "lib/./a" ≠ Path.mk .root ["p"] := by decide
  exact ⟨plot_shared,hp,read_shared plot_shared hp hroot hroot' fun h => absurd h hrequest,rfl⟩

/-- The request for the project root tells whether a file stands beside the project. -/
theorem neighbour_shows : SharedTree secluded neighboured ["p"] ∧
    secluded.resolve (Path.parse "/p") = .ok (Path.mk .root ["p"]) ∧
    neighboured.resolve (Path.parse "/p") = .ok (Path.mk .root ["p"]) ∧
    read secluded "/p" "." = .ok (ofFile (Path.mk .root ["p","index.tsx"]) [105]) ∧
    read neighboured "/p" "." = .error .outsideProject :=
  ⟨plot_shared,plot_resolve.1,plot_resolve.2,rfl,rfl⟩

end FileView
end WebAtlas
