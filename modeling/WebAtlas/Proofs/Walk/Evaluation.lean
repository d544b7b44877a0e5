import WebAtlas.Proofs.Walk.Contents
import Mathlib.Data.List.Sort
import Mathlib.Data.String.Basic

/-! # Walks that compute

A walk sorts what directories list by merging, a recursion that does not unfold of itself. Names in
one directory are distinct, so sorting by insertion gives the same list, and the walk of a given tree
is computed from it.
-/
namespace WebAtlas.FileSystem
variable {fs : FileSystem}

def insertedListing (fs : FileSystem) (dir : Location) : List (String × Entry) :=
  (fs.listing dir).insertionSort (·.1 ≤ ·.1)

theorem WellFormed.sortedListing_eq (h : fs.WellFormed) (dir : Location) :
    fs.sortedListing dir = fs.insertedListing dir := by
  have htrans : IsTrans (String × Entry) (·.1 ≤ ·.1) := ⟨fun _ _ _ => le_trans⟩
  have htotal : Std.Total (fun a b : String × Entry => a.1 ≤ b.1) := ⟨fun a b => le_total a.1 b.1⟩
  have hperm := List.perm_insertionSort (fun a b : String × Entry => a.1 ≤ b.1) (fs.listing dir)
  refine ((List.mergeSort_perm _ _).trans hperm.symm).eq_of_pairwise ?_
    (List.pairwise_mergeSort' _ _) (List.pairwise_insertionSort _ _)
  intro a b ha hb hab hba
  exact List.inj_on_of_nodup_map (h.listing_nodup dir) (List.mem_mergeSort.mp ha)
    (hperm.mem_iff.mp hb) (le_antisymm hab hba)

def insertedContents (fs : FileSystem) (dir : Path) (loc : Location) : List (String × Entry) :=
  (fs.insertedListing loc).filterMap fun (name, entry) =>
    (fs.target? (dir.child name) entry).map (name, ·)

/-- The visit of a directory, what each directory lists being sorted by insertion. -/
def computedVisit (fs : FileSystem) (ignored : List String) :
    Nat → List Location → Path → List Visit × List Location
  | 0, entered, dir => ([.tooDeep dir], entered)
  | levels + 1, entered, dir =>
    match fs.status dir with
    | .ok (loc, .directory) =>
      if entered.contains loc then ([], entered)
      else
        (((fs.insertedContents dir loc).filter fun (name, entry) =>
          entry.isDirectory && !ignored.contains name).map (dir.child ·.1)).foldl
          (fun (visits, entered) sub =>
            let (more, entered) := computedVisit fs ignored levels entered sub
            (visits ++ more, entered))
          ((((fs.insertedContents dir loc).filter (·.2.isFile)).map (dir.child ·.1)).map .file,
            loc :: entered)
    | _ => ([], entered)

theorem WellFormed.visit_eq (h : fs.WellFormed) (ignored : List String) (levels : Nat) :
    fs.visit ignored levels = fs.computedVisit ignored levels := by
  have hcontents : ∀ dir loc, fs.contents dir loc = fs.insertedContents dir loc := by
    intro dir loc
    rw [contents, h.sortedListing_eq]
    rfl
  induction levels with
  | zero => rfl
  | succ levels ih =>
    funext entered dir
    rw [visit, computedVisit]
    rcases fs.status dir with _ | ⟨loc,entry⟩
    · rfl
    · cases entry with
      | directory => simp only [ownFiles, ownDirectories, hcontents, ih, List.contains_iff_mem]
      | file => rfl
      | link => rfl

/-- The walk of a well-formed file system, computed. -/
theorem WellFormed.walk_computed (h : fs.WellFormed) (policy : WalkPolicy) (start : Path) :
    fs.walk policy start = (fs.isDirectory? start).map fun isDirectory =>
      if isDirectory then (fs.computedVisit policy.ignored (levelsOf policy.maxDepth) [] start).1
      else [] := by
  rw [walk, h.visit_eq]

end WebAtlas.FileSystem
