import WebAtlas.Proofs.Project.Alike
import WebAtlas.Proofs.Project.Dates
import WebAtlas.Proofs.Walk.Evaluation

/-! # The order in which directories list their entries

The entries of a directory come in whatever order the file system keeps them. Nothing found in a
project depends on it, neither which of several ways enters a directory first nor what a cap keeps
nor which node is given the shorter id.
-/
namespace WebAtlas
namespace FileSystem
variable {fs fs' : FileSystem}

theorem WellFormed.of_perm (hfs : fs.WellFormed) (hperm : fs.entries.Perm fs'.entries) :
    fs'.WellFormed where
  distinct := (hperm.map _).nodup_iff.mp hfs.distinct
  named e he := hfs.named e (hperm.mem_iff.mpr he)

theorem WellFormed.entry?_eq_some_iff (hfs : fs.WellFormed) {loc : Location} (hl : loc ≠ [])
    {entry : Entry} : fs.entry? loc = some entry ↔ (loc,entry) ∈ fs.entries :=
  ⟨fun h => mem_entries_of_eq h hl,hfs.entry?_of_mem⟩

/-- File systems that differ in the order of their entries read alike. -/
theorem alike_of_perm (hfs : fs.WellFormed) (hhome : fs.workingDirectory = fs'.workingDirectory)
    (hperm : fs.entries.Perm fs'.entries) : Alike fs fs' where
  wellFormed := hfs
  wellFormed' := hfs.of_perm hperm
  home := hhome
  entries loc := by
    refine .inl ?_
    by_cases hl : loc = []
    · unfold entry?
      rw [if_pos hl, if_pos hl]
    · apply Option.ext
      intro entry
      rw [hfs.entry?_eq_some_iff hl, (hfs.of_perm hperm).entry?_eq_some_iff hl, hperm.mem_iff]
  links := hperm.countP_eq _

end FileSystem

namespace Analysis
open FileSystem

/-- The analysis of a project is the same in whatever order directories list their entries, and walks
go through directories and files by name. -/
theorem listing_order {fs fs' : FileSystem} (hfs : fs.WellFormed)
    (hhome : fs.workingDirectory = fs'.workingDirectory) (hperm : fs.entries.Perm fs'.entries) :
    (∀ room settings options stamp stamp' path,
      (ofPath fs room settings options stamp path).outcome.1.map (dated "") =
        (ofPath fs' room settings options stamp' path).outcome.1.map (dated "")) ∧
    ∀ policy start origin, fs.status start = .ok (origin,.directory) →
      ∃ visits steps, ByName fs policy start visits steps := by
  constructor
  · intro room settings options stamp stamp' path
    rw [ofPath_dated, ofPath_dated, ofPath_alike (alike_of_perm hfs hhome hperm)]
  · exact fun policy _ _ hs => hfs.walk_byName policy hs

/-- A project with a file and a directory that claim one id, and a link to the directory. -/
def contested : List (Location × Entry) :=
  [(["p"],.directory), (["p","b"],.directory), (["p","b","x.ts"],.file []), (["p","a"],.link "b"),
    (["p","a_x.ts"],.file [])]

theorem contested_wellFormed : (FileSystem.mk contested []).WellFormed :=
  wellFormed_of_getLast? (by decide) (by decide)

theorem contested_walk : FileSystem.walk ⟨contested,[]⟩ ⟨[],8⟩ (Path.parse "/p") =
    .ok [.file (Path.parse "/p/a_x.ts"),.file (Path.parse "/p/a/x.ts")] := by
  rw [contested_wellFormed.walk_computed]
  rfl

/-- Listed backwards the project is the same, under a cap of one file too; the directory is entered
through the link, whose name comes first. -/
theorem listing_order_contested :
    (FileSystem.mk contested []).WellFormed ∧ contested.Perm contested.reverse ∧
    (∀ room stamp stamp',
      (ofPath ⟨contested,[]⟩ room {} ⟨some 1,none⟩ stamp (some "/p")).outcome.1.map (dated "") =
      (ofPath ⟨contested.reverse,[]⟩ room {} ⟨some 1,none⟩ stamp' (some "/p")).outcome.1.map (dated "")) ∧
    ∃ steps, ByName ⟨contested,[]⟩ ⟨[],8⟩ (Path.parse "/p")
      [.file (Path.parse "/p/a_x.ts"),.file (Path.parse "/p/a/x.ts")] steps := by
  have hperm : contested.Perm contested.reverse := (List.reverse_perm _).symm
  obtain ⟨hsame,hwalks⟩ :=
    @listing_order ⟨contested,[]⟩ ⟨contested.reverse,[]⟩ contested_wellFormed rfl hperm
  obtain ⟨visits,steps,hbyName⟩ := hwalks ⟨[],8⟩ (Path.parse "/p") ["p"] rfl
  obtain rfl := Except.ok.inj (contested_walk.symm.trans hbyName.walk)
  exact ⟨contested_wellFormed,hperm,fun room stamp stamp' => hsame room _ _ stamp stamp' _,steps,hbyName⟩

end Analysis
end WebAtlas
