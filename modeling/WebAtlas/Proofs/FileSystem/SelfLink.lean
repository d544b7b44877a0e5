import WebAtlas.Proofs.FileSystem.RealPath

/-! # Links to themselves

A link to itself leads nowhere: it would have to be followed once more than it is. Looking it up runs
out of links to follow, and its real path is the link itself.
-/
namespace WebAtlas.FileSystem
variable {fs : FileSystem} {dir loc : Location} {name : String} {entry : Entry} {links : List Location}

structure SelfLink (fs : FileSystem) (dir : Location) (name : String) : Prop where
  real : fs.IsReal dir
  named : Names name
  entry : fs.entry? (dir ++ [name]) = some (.link name)
  pieces : Path.pieces name = [name]
  relative : linkOrigin dir name = dir

namespace SelfLink

theorem not_leads (h : fs.SelfLink dir name) : ¬ fs.Leads dir [name] loc entry links := by
  intro hl
  cases hl with
  | void hv => exact h.named.void hv
  | up => exact not_names_dotdot h.named
  | enter _ he | file _ he => rw [h.entry] at he; cases he
  | link _ he hrest =>
    rw [h.entry] at he
    cases he
    have hagain := hrest
    rw [h.pieces, h.relative, List.append_nil] at hagain
    obtain ⟨-,-,hlinks⟩ := hagain.deterministic (.link h.named h.entry hrest)
    have hlength := congrArg List.length hlinks
    rw [List.length_cons] at hlength
    omega

theorem follow (h : fs.SelfLink dir name) (budget : Nat) :
    fs.follow true budget dir [name] = .error .tooManyLinks := by
  have hadvance : fs.advance true dir [name] = .ok (.link dir name []) := by
    rw [advance_cons h.named, h.entry]
    rfl
  induction budget with
  | zero => rw [FileSystem.follow, hadvance]
  | succ budget ih =>
    rw [FileSystem.follow, hadvance]
    dsimp only
    rwa [h.relative, h.pieces, List.append_nil]

theorem status (h : fs.SelfLink dir name) (hf : Fits (dir ++ [name])) :
    fs.status (Path.mk .root (dir ++ [name])) = .error .tooManyLinks := by
  have hadvance : fs.advance true [] (dir ++ [name]) = fs.advance true dir [name] := by
    rw [advance_append_of_isReal (by simpa using h.real), List.nil_append]
  have hfollow : fs.follow true linkLimit [] (dir ++ [name]) = .error .tooManyLinks := by
    rw [← h.follow linkLimit, FileSystem.follow, FileSystem.follow, hadvance]
  unfold FileSystem.status
  rw [locate_root hf, hfollow]

/-- The link is met again while its own target is being read, and that stops the walk. -/
theorem realTarget (h : fs.SelfLink dir name) (hf : Fits (dir ++ [name])) {depth : Nat}
    {pending : List Path} (hnew : Path.mk .root (dir ++ [name]) ∉ pending) :
    fs.realTarget (depth + 2) pending (Path.mk .root dir) (Path.mk .root (dir ++ [name])) name =
      .error (Path.mk .root (dir ++ [name])) := by
  have htarget : fs.linkTarget? (Path.mk .root (dir ++ [name])) = some name := by
    rw [linkTarget?_of_isReal h.real h.named hf, h.entry]
  have hagain : fs.realTarget (depth + 1) (Path.mk .root (dir ++ [name]) :: pending)
      (Path.mk .root dir) (Path.mk .root (dir ++ [name])) name =
        .error (Path.mk .root (dir ++ [name])) := by
    rw [FileSystem.realTarget, if_pos List.mem_cons_self]
  rw [FileSystem.realTarget, if_neg hnew, targetStart_eq, h.relative, h.pieces,
    realAlong_link_error h.named htarget hagain, withRest_nil]

end SelfLink
end WebAtlas.FileSystem
