import WebAtlas.Proofs.FileSystem.RealPath
import WebAtlas.Proofs.Path.Append
import Mathlib.Data.List.Induction

/-! # Links that stay inside

When every link below a directory leads to a place below it, so does every path that is written with
names from there. A link that leads nowhere counts as staying inside.
-/
namespace WebAtlas.FileSystem
variable {fs : FileSystem} {site dir loc : Location} {entry : Entry} {links : List Location}

/-- Every link below `site` that can be followed leads to `site` or below it. -/
def Enclosed (fs : FileSystem) (site : Location) : Prop :=
  ∀ dir name target, site <+: dir → fs.entry? (dir ++ [name]) = some (.link target) →
    ∀ loc entry links, links.length ≤ linkLimit → fs.Leads dir [name] loc entry links → site <+: loc

/-- The induction takes the last name off: what comes before it leads inside, and so the last name
names an entry inside. -/
theorem Enclosed.prefix_of_leads {names : List String} (h : fs.Enclosed site) (hn : Path.Plain names)
    (hl : fs.Leads site names loc entry links) (hlimit : links.length ≤ linkLimit) : site <+: loc := by
  induction names using List.reverseRecOn generalizing loc entry links with
  | nil =>
    cases hl
    exact List.prefix_rfl
  | append_singleton names name ih =>
    obtain ⟨mid,before,later,hmid,hlast,rfl⟩ := hl.split (List.cons_ne_nil _ _)
    rw [List.length_append] at hlimit
    have hin : site <+: mid := ih (hn.mono (List.subset_append_left ..)) hmid (by omega)
    obtain ⟨hvoid,hup,-⟩ := hn name (by simp)
    cases hlast with
    | void hv => rw [hvoid] at hv; cases hv
    | up => exact absurd rfl hup
    | enter _ _ hrest =>
      cases hrest
      exact hin.trans (List.prefix_append ..)
    | file => exact hin.trans (List.prefix_append ..)
    | link hp he hrest => exact h mid name _ hin he _ _ _ (by omega) (.link hp he hrest)

section Written
variable {names rest : List String} {piece : String}
  (hn : ∀ n ∈ names, '/' ∉ n.toList ∧ Path.isVoid n = false)
include hn

theorem linkOrigin_names : linkOrigin dir ("/".intercalate names) = dir := by
  unfold linkOrigin
  rw [Path.parse_intercalate (fun n h => (hn n h).1) fun n h => (hn n h).2]
  rfl

variable (hne : names ≠ [])
include hne

/-- A link whose target is written with names leads where these lead from its own directory. -/
theorem Leads.link_names (hp : Names piece)
    (he : fs.entry? (dir ++ [piece]) = some (.link ("/".intercalate names)))
    (h : fs.Leads dir (names ++ rest) loc entry links) :
    fs.Leads dir (piece :: rest) loc entry ((dir ++ [piece]) :: links) := by
  refine .link hp he ?_
  rwa [linkOrigin_names hn, Path.pieces_intercalate (fun n h => (hn n h).1) hne]

theorem realTarget_names {depth : Nat} {pending : List Path} {link : Path} (hnew : link ∉ pending) :
    fs.realTarget (depth + 1) pending (Path.mk .root dir) link ("/".intercalate names) =
      fs.realAlong (fs.realTarget depth (link :: pending)) (Path.mk .root dir) names := by
  rw [realTarget, if_neg hnew, targetStart_eq, linkOrigin_names hn,
    Path.pieces_intercalate (fun n h => (hn n h).1) hne]

end Written

end WebAtlas.FileSystem
