import WebAtlas.Proofs.FileSystem.RealPath
import WebAtlas.Proofs.Path.Text

/-! # Look-ups refused for a length

A look-up is refused when the path or a name on the way is longer than the file system takes. Testing
such a path is an error, while testing any other one tells what the path leads to.
-/
namespace WebAtlas.FileSystem
variable {fs : FileSystem} {p : Path}

/-- The look-up of a path is not refused for the length of the path or of a name on the way, or a null
byte in the path keeps it from being looked up. -/
def Clear (fs : FileSystem) (p : Path) : Prop :=
  fs.status p = .error .nameTooLong → p.segments.any Path.holdsNull = true

instance : DecidablePred fs.Clear := fun _ => inferInstanceAs (Decidable (_ → _))

/-- A name that no file system takes. -/
def overlong : String := String.ofList (List.replicate 300 'n')

theorem unfit_overlong : Unfit .nameTooLong overlong := unfit_letters (by decide) (by decide)

theorem slash_not_mem_overlong : '/' ∉ overlong.toList := slash_not_mem_letters _

theorem pieces_overlong : Path.pieces overlong = [overlong] := by
  have hpieces := Path.pieces_intercalate (List.forall_mem_singleton.mpr slash_not_mem_overlong)
    (List.cons_ne_nil _ _)
  rwa [String.intercalate_singleton] at hpieces

theorem not_clear_iff : ¬ fs.Clear p ↔
    fs.status p = .error .nameTooLong ∧ p.segments.any Path.holdsNull = false := by
  unfold Clear
  rw [Classical.not_imp, Bool.not_eq_true]

theorem clear_iff : fs.Clear p ↔ ∃ isDirectory, fs.isDirectory? p = .ok isDirectory := by
  unfold Clear isDirectory? test
  cases fs.status p with
  | ok found => simp
  | error fault => cases fault <;> cases p.segments.any Path.holdsNull <;> simp

theorem test_of_not_clear {accepts : Entry → Bool} (h : ¬ fs.Clear p) :
    fs.test accepts p = .error ⟨.nameTooLong,p⟩ := by
  obtain ⟨hs,hz⟩ := not_clear_iff.mp h
  unfold test
  rw [hs]
  exact if_neg (by simp [hz])

/-- A test that is not refused tells whether the path leads to a file. -/
theorem isFile?_of_clear (h : fs.Clear p) : fs.isFile? p = .ok (fs.hasFile p) := by
  unfold Clear at h
  unfold isFile? test hasFile
  cases hs : fs.status p with
  | ok found => rfl
  | error fault => cases fault <;> simp_all only [↓reduceIte]

/-- No path goes through a link to a name that is too long. -/
theorem status_of_overlong_link {site rest : Location} {name target long : String} (hsite : fs.IsReal site)
    (hn : Names name) (he : fs.entry? (site ++ [name]) = some (.link target))
    (ht : Path.pieces target = [long])
    (hlong : Unfit .nameTooLong long) :
    fs.status (Path.mk .root (site ++ name :: rest)) = .error .nameTooLong := by
  have hlink : fs.advance true [] (site ++ name :: rest) = .ok (.link site target rest) := by
    rw [advance_append_of_isReal (by simpa using hsite), List.nil_append, advance_cons hn, he]
    simp
  have htarget : fs.follow true 39 (linkOrigin site target) (Path.pieces target ++ rest) =
      .error .nameTooLong := by
    rw [follow, ht, List.singleton_append, advance_unfit hlong]
  have hfollow : fs.follow true linkLimit [] (site ++ name :: rest) = .error .nameTooLong := by
    have hlimit : linkLimit = 39 + 1 := rfl
    rw [hlimit, follow, hlink]
    exact htarget
  have hlocate : fs.locate true (Path.mk .root (site ++ name :: rest)) = .error .nameTooLong := by
    unfold locate
    split
    · rfl
    · exact hfollow
  unfold status
  rw [hlocate]

section Overlong
variable {site rest : Location} {long : String} (hsite : fs.IsReal site)
  (hlong : Unfit .nameTooLong long)
include hsite hlong

theorem locate_of_overlong {followLast : Bool} :
    fs.locate followLast (Path.mk .root (site ++ long :: rest)) = .error .nameTooLong := by
  unfold locate
  split
  · rfl
  · change fs.follow followLast linkLimit [] (site ++ long :: rest) = _
    rw [follow, advance_append_of_isReal (by simpa using hsite), List.nil_append, advance_unfit hlong]

theorem status_of_overlong :
    fs.status (Path.mk .root (site ++ long :: rest)) = .error .nameTooLong := by
  unfold status
  rw [locate_of_overlong hsite hlong]

/-- A name that is too long is kept in the real path. -/
theorem realPath_of_overlong :
    fs.realPath (Path.mk .root (site ++ [long])) = Path.mk .root (site ++ [long]) := by
  have hleads : fs.Leads [] site site .directory [] := @leads_of_isReal fs [] site hsite
  have hlink : fs.linkTarget? (Path.mk .root (site ++ [long])) = none := by
    unfold linkTarget?
    rw [locate_of_overlong hsite hlong]
  exact @realPath_snoc fs (Path.mk .root site) site long [] rfl hleads nofun hlong.1 hlong.2.1 hlink

end Overlong

end WebAtlas.FileSystem
