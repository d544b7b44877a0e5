import WebAtlas.Proofs.FileSystem.Alike
import WebAtlas.Proofs.Walk.Order

/-! # Walks of file systems that read alike

A directory holds files and directories of the same names in both, and a walk takes them by name. So
walks are the same visit for visit, and with them all that is found by walking.
-/
namespace WebAtlas
namespace FileSystem.Alike
variable {fs fs' : FileSystem} (h : Alike fs fs')
include h

/-- What a walk finds in a directory it finds there in both, as far as it is told apart. -/
theorem contents {dir : Path} {loc : Location} {name : String} {entry : Entry}
    (hm : (name,entry) ∈ fs.contents dir loc) : ∃ entry', (name,entry') ∈ fs'.contents dir loc ∧
      entry.isFile = entry'.isFile ∧ entry.isDirectory = entry'.isDirectory := by
  obtain ⟨listed,hlisted,htarget⟩ := mem_contents.mp hm
  have hentry := (h.wellFormed.listed hlisted).2
  have hlisting : ∀ {e}, fs'.entry? (loc ++ [name]) = some e → (name,e) ∈ fs'.listing loc := fun he =>
    mem_listing_iff.mpr (mem_entries_of_eq he (by simp))
  rcases h.entries (loc ++ [name]) with heq | ⟨_,bytes,bytes',-,hfile,hfile'⟩
  · rw [hentry] at heq
    cases listed with
    | directory | file bytes => exact ⟨entry,mem_contents.mpr ⟨_,hlisting heq.symm,htarget⟩,rfl,rfl⟩
    | link target =>
      rw [target?] at htarget
      rcases h.status (dir.child name) with hsame | ⟨site,bytes,bytes',-,hx,hy⟩
      · rw [hsame] at htarget
        exact ⟨entry,mem_contents.mpr ⟨_,hlisting heq.symm,htarget⟩,rfl,rfl⟩
      · rw [hx] at htarget
        cases htarget
        refine ⟨.file bytes',mem_contents.mpr ⟨_,hlisting heq.symm,?_⟩,rfl,rfl⟩
        rw [target?, hy]
        rfl
  · obtain rfl := Option.some_inj.mp (hentry.symm.trans hfile)
    cases htarget
    exact ⟨.file bytes',mem_contents.mpr ⟨_,hlisting hfile',rfl⟩,rfl,rfl⟩

/-- A selection from the contents of a directory gives the same names in the same order. -/
theorem names_filter {keep : String → Entry → Bool} (hkeep : ∀ name entry entry',
      entry.isFile = entry'.isFile → entry.isDirectory = entry'.isDirectory →
      keep name entry = keep name entry') (dir : Path) (loc : Location) :
    ((fs.contents dir loc).filter fun e => keep e.1 e.2).map (·.1) =
      ((fs'.contents dir loc).filter fun e => keep e.1 e.2).map (·.1) := by
  have hsorted : ∀ {g : FileSystem}, g.WellFormed →
      (((g.contents dir loc).filter fun e => keep e.1 e.2).map (·.1)).Pairwise (· < ·) := fun hg =>
    List.pairwise_map.mpr ((hg.contents_sorted dir loc).filter _)
  have htransfer : ∀ {g g' : FileSystem}, Alike g g' →
      ∀ name ∈ ((g.contents dir loc).filter fun e => keep e.1 e.2).map (·.1),
        name ∈ ((g'.contents dir loc).filter fun e => keep e.1 e.2).map (·.1) := by
    intro g g' hg name hname
    obtain ⟨⟨_,entry⟩,he,rfl⟩ := List.mem_map.mp hname
    obtain ⟨hm,hk⟩ := List.mem_filter.mp he
    obtain ⟨entry',hm',hfile,hdirectory⟩ := hg.contents hm
    rw [hkeep _ entry entry' hfile hdirectory] at hk
    exact List.mem_map.mpr ⟨_,List.mem_filter.mpr ⟨hm',hk⟩,rfl⟩
  exact (hsorted h.wellFormed).eq_of_mem_iff (hsorted h.wellFormed') fun name =>
    ⟨htransfer h name,htransfer h.symm name⟩

theorem ownFiles (dir : Path) (loc : Location) : fs.ownFiles dir loc = fs'.ownFiles dir loc := by
  have hnames := h.names_filter (fun _ _ _ hfile _ => hfile) dir loc
  have hpaths := congrArg (List.map dir.child) hnames
  rwa [List.map_map, List.map_map] at hpaths

theorem ownDirectories (ignored : List String) (dir : Path) (loc : Location) :
    fs.ownDirectories ignored dir loc = fs'.ownDirectories ignored dir loc := by
  have hkeep : ∀ name entry entry', Entry.isFile entry = Entry.isFile entry' →
      Entry.isDirectory entry = Entry.isDirectory entry' →
      (entry.isDirectory && !ignored.contains name) =
        (entry'.isDirectory && !ignored.contains name) := by
    intro name entry entry' _ hdirectory
    rw [hdirectory]
  have hpaths := congrArg (List.map dir.child) (h.names_filter hkeep dir loc)
  rwa [List.map_map, List.map_map] at hpaths

theorem visit (ignored : List String) (levels : Nat) (entered : List Location) (dir : Path) :
    fs.visit ignored levels entered dir = fs'.visit ignored levels entered dir := by
  induction levels generalizing entered dir with
  | zero => rfl
  | succ levels ih =>
    have hdirectory : ∀ loc,
        fs.status dir = .ok (loc,.directory) ↔ fs'.status dir = .ok (loc,.directory) := by
      intro loc
      rcases h.status dir with heq | ⟨site,bytes,bytes',-,hx,hy⟩
      · rw [heq]
      · simp [hx, hy]
    by_cases hnew : ∃ loc, fs.status dir = .ok (loc,.directory) ∧ loc ∉ entered
    · obtain ⟨loc,hs,hnew⟩ := hnew
      rw [visit_enter hs hnew, visit_enter ((hdirectory loc).mp hs) hnew, h.ownFiles, h.ownDirectories]
      simp only [visitAll, ih]
    · have hpass : ∀ loc, fs.status dir = .ok (loc,.directory) → loc ∈ entered := by
        intro loc hs
        by_contra hn
        exact hnew ⟨loc,hs,hn⟩
      rw [visit_pass hpass, visit_pass fun loc hs => hpass loc ((hdirectory loc).mpr hs)]

theorem walk (policy : WalkPolicy) (start : Path) : fs.walk policy start = fs'.walk policy start := by
  rw [FileSystem.walk, FileSystem.walk, h.isDirectory?, h.visit]

end FileSystem.Alike

namespace Walk
open FileSystem
variable {fs fs' : FileSystem} (h : Alike fs fs') (policy : WalkPolicy)
include h

theorem course_alike (room : Nat) (start : Path) :
    course fs policy room start = course fs' policy room start := by
  rw [course, course, h.walk]

theorem files_alike (accepts : Path → Bool) (start : Path) :
    files fs policy accepts start = files fs' policy accepts start := by
  rw [files, files, filesOn, filesOn, course_alike h]

theorem filesBelow_alike (accepts : Path → Bool) (root : Path) (starts : List (List String)) :
    filesBelow fs policy accepts root starts = filesBelow fs' policy accepts root starts := by
  simp only [filesBelow, filesIfDirectory, h.isDirectory?, files_alike h]

theorem sources_alike (cap : Int) (start : Path) :
    sources fs policy cap start = sources fs' policy cap start := by
  rw [sources, sources, sourcesOn, sourcesOn, course_alike h]

end Walk
end WebAtlas
