import WebAtlas.Proofs.FileSystem.RealPath
import WebAtlas.Proofs.Path.Append

/-! # Trees without links

Below a real directory that holds no links a path leads where its names say. Two file systems that
agree on such a tree therefore answer every look-up below it alike, whatever lies elsewhere.
-/
namespace WebAtlas.FileSystem

/-- A directory that is real in two file systems, which agree on all that lies below it and have no
link there. -/
structure SharedTree (fs fs' : FileSystem) (site : Location) : Prop where
  real : fs.IsReal site
  real' : fs'.IsReal site
  agree : ∀ names, fs.entry? (site ++ names) = fs'.entry? (site ++ names)
  linkless : ∀ names target, fs.entry? (site ++ names) ≠ some (.link target)

variable {fs fs' : FileSystem} {site : Location} {names : List String}

theorem SharedTree.symm (h : SharedTree fs fs' site) : SharedTree fs' fs site where
  real := h.real'
  real' := h.real
  agree names := (h.agree names).symm
  linkless names target := by rw [← h.agree names]; exact h.linkless names target

theorem entry?_append_of_some {entries more : List (Location × Entry)} {home home' : Location}
    {loc : Location} {entry : Entry} (h : entry? (FileSystem.mk entries home) loc = some entry) :
    entry? (FileSystem.mk (entries ++ more) home') loc = some entry := by
  unfold entry? at h ⊢
  split at h
  · rename_i hloc
    rw [if_pos hloc]
    exact h
  · rename_i hloc
    dsimp only at h
    rw [if_neg hloc, List.lookup_append, h]
    rfl

/-- Entries that do not lie below a directory change nothing there. -/
theorem entry?_append_outside {entries more : List (Location × Entry)} {home home' : Location}
    (h : ∀ e ∈ more, ¬ site <+: e.1) :
    entry? (FileSystem.mk (entries ++ more) home') (site ++ names) =
      entry? (FileSystem.mk entries home) (site ++ names) := by
  have hnone : more.lookup (site ++ names) = none := by
    rw [List.lookup_eq_none_iff]
    intro e he
    have hne : site ++ names ≠ e.1 := fun heq => h e he (heq ▸ List.prefix_append ..)
    simpa using hne
  unfold entry?
  split
  · rfl
  · rw [List.lookup_append, hnone, Option.or_none]

/-- A tree without links is shared by all file systems that add to it only outside. -/
theorem sharedTree_append {entries more more' : List (Location × Entry)} {home home' : Location}
    (hr : (FileSystem.mk entries []).IsReal site)
    (hl : ∀ e ∈ entries, e.2.isLink = true → ¬ site <+: e.1)
    (h : ∀ e ∈ more, ¬ site <+: e.1) (h' : ∀ e ∈ more', ¬ site <+: e.1) :
    SharedTree ⟨entries ++ more,home⟩ ⟨entries ++ more',home'⟩ site where
  real init name hp := ⟨(hr init name hp).1,entry?_append_of_some (hr init name hp).2⟩
  real' init name hp := ⟨(hr init name hp).1,entry?_append_of_some (hr init name hp).2⟩
  agree names := by
    rw [@entry?_append_outside site names entries more [] home h,
      @entry?_append_outside site names entries more' [] home' h']
  linkless names target := by
    rw [@entry?_append_outside site names entries more [] home h]
    intro hlink
    by_cases hloc : site ++ names = []
    · rw [hloc] at hlink
      cases hlink
    · exact hl _ (mem_entries_of_eq hlink hloc) rfl (List.prefix_append ..)

def Arrival.Linkless : Except FileFault Arrival → Prop
  | .ok (.present _ (.link _)) | .ok (.link _ _ _) => False
  | _ => True

theorem SharedTree.advance (h : SharedTree fs fs' site) {followLast : Bool} {below : List String}
    (hn : ".." ∉ names) : fs.advance followLast (site ++ below) names =
      fs'.advance followLast (site ++ below) names ∧
      Arrival.Linkless (fs.advance followLast (site ++ below) names) := by
  induction names generalizing below with
  | nil => exact ⟨rfl,trivial⟩
  | cons name names ih =>
    obtain ⟨hname,hrest⟩ := not_or.mp (mt List.mem_cons.mpr hn)
    have hdeeper := @ih (below ++ [name]) hrest
    rw [← List.append_assoc] at hdeeper
    rcases piece_cases name with hp | rfl | hp | ⟨fault,hp⟩
    · rw [advance_void hp, advance_void hp]
      exact ih hrest
    · exact absurd rfl hname
    · have hagree := h.agree (below ++ [name])
      have hlinkless := h.linkless (below ++ [name])
      rw [← List.append_assoc] at hagree hlinkless
      rw [advance_cons hp, advance_cons hp, ← hagree]
      cases he : fs.entry? (site ++ below ++ [name]) with
      | none => exact ⟨rfl,by dsimp only; split <;> trivial⟩
      | some entry =>
        cases entry with
        | directory => exact hdeeper
        | file bytes => exact ⟨rfl,by dsimp only; split <;> trivial⟩
        | link target => exact absurd he (hlinkless target)
    · rw [advance_unfit hp, advance_unfit hp]
      exact ⟨rfl,trivial⟩

theorem follow_of_linkless {followLast : Bool} {budget : Nat} {dir : Location}
    (h : Arrival.Linkless (fs.advance followLast dir names)) :
    fs.follow followLast budget dir names = fs.advance followLast dir names := by
  rw [follow]
  split
  · rename_i ha
    rw [ha] at h
    exact h.elim
  · rfl

theorem SharedTree.locate (h : SharedTree fs fs' site) {followLast : Bool} (hn : ".." ∉ names) :
    fs.locate followLast (Path.mk .root (site ++ names)) =
      fs'.locate followLast (Path.mk .root (site ++ names)) ∧
      Arrival.Linkless (fs.locate followLast (Path.mk .root (site ++ names))) := by
  obtain ⟨hsame,hlinkless⟩ := @SharedTree.advance fs fs' site names h followLast [] hn
  rw [List.append_nil] at hsame hlinkless
  have hdown : ∀ {g : FileSystem}, g.IsReal site →
      g.advance followLast [] (site ++ names) = g.advance followLast site names := fun hr =>
    advance_append_of_isReal (by simpa using hr)
  have hfollow : ∀ {g : FileSystem}, g.IsReal site →
      Arrival.Linkless (g.advance followLast site names) →
      g.follow followLast linkLimit [] (site ++ names) = g.advance followLast site names := by
    intro g hr hl
    rw [← hdown hr] at hl ⊢
    exact follow_of_linkless hl
  have hfs := hfollow h.real hlinkless
  have hfs' := hfollow h.real' (hsame ▸ hlinkless)
  unfold FileSystem.locate
  split
  · exact ⟨rfl,trivial⟩
  · change fs.follow followLast linkLimit [] (site ++ names) =
        fs'.follow followLast linkLimit [] (site ++ names) ∧
      Arrival.Linkless (fs.follow followLast linkLimit [] (site ++ names))
    rw [hfs, hfs']
    exact ⟨hsame,hlinkless⟩

theorem SharedTree.status (h : SharedTree fs fs' site) (hn : ".." ∉ names) :
    fs.status (Path.mk .root (site ++ names)) = fs'.status (Path.mk .root (site ++ names)) := by
  unfold FileSystem.status
  rw [(h.locate hn).1]

theorem SharedTree.linkTarget? (h : SharedTree fs fs' site) (hn : ".." ∉ names) :
    fs.linkTarget? (Path.mk .root (site ++ names)) = none := by
  have hlinkless := (@SharedTree.locate fs fs' site names h false hn).2
  unfold FileSystem.linkTarget?
  split
  · rename_i hl
    rw [hl] at hlinkless
    exact hlinkless.elim
  · rfl

/-- Along names none of which is a link the real path is the path itself. -/
theorem realAlong_of_linkless {enter : Path → Path → String → Except Path Path} {dir : Location}
    (hn : Path.Plain names) (hl : ∀ before name, before ++ [name] <+: names →
      fs.linkTarget? (Path.mk .root (dir ++ before ++ [name])) = none) :
    fs.realAlong enter (Path.mk .root dir) names = .ok (Path.mk .root (dir ++ names)) := by
  induction names generalizing dir with
  | nil => rw [List.append_nil]; rfl
  | cons name names ih =>
    obtain ⟨hvoid,hup,-⟩ := hn name List.mem_cons_self
    have hfirst : fs.linkTarget? ((Path.mk .root dir).child name) = none := by
      simpa [Path.child] using hl [] name (List.prefix_cons_inj _ |>.mpr List.nil_prefix)
    have hrest : ∀ before next, before ++ [next] <+: names →
        fs.linkTarget? (Path.mk .root (dir ++ [name] ++ before ++ [next])) = none := by
      intro before next hp
      simpa using hl (name :: before) next (List.prefix_cons_inj _ |>.mpr hp)
    rw [realAlong, if_neg (by simp [hvoid]), if_neg hup, hfirst]
    simpa [Path.child] using ih (fun n hm => hn n (List.mem_cons_of_mem _ hm)) hrest

/-- The real path of a path below a tree without links is that path, also where it leads nowhere. -/
theorem SharedTree.realPath (h : SharedTree fs fs' site) (hs : Path.Plain site)
    (hn : Path.Plain names) :
    fs.realPath (Path.mk .root (site ++ names)) = Path.mk .root (site ++ names) := by
  have hwhole : Path.Plain (site ++ names) := hs.append hn
  have hlinks : ∀ before name, before ++ [name] <+: site ++ names →
      fs.linkTarget? (Path.mk .root ([] ++ before ++ [name])) = none := by
    intro before name hp
    rw [List.nil_append]
    rcases List.prefix_or_prefix_of_prefix hp (List.prefix_append site names) with hp | ⟨below,heq⟩
    · obtain ⟨hname,hentry⟩ := h.real before name hp
      exact linkTarget?_eq_none_of_isReal (h.real.of_prefix ((List.prefix_append ..).trans hp)) hname
        (by simp [hentry])
    · rw [← heq] at hp ⊢
      have hbelow : below <+: names := (List.prefix_append_right_inj site).mp hp
      exact h.linkTarget? fun hm => (hn _ (hbelow.subset hm)).2.1 rfl
  have halong := @realAlong_of_linkless fs (site ++ names) (fs.realTarget fs.linkDepth []) [] hwhole hlinks
  have habsolute : (Path.mk .root (site ++ names)).isAbsolute = true := rfl
  unfold FileSystem.realPath
  rw [if_pos habsolute, halong]
  exact Path.normalize_of_forall_ne fun name hm => (hwhole name hm).2.1

theorem SharedTree.resolve (h : SharedTree fs fs' site) (hs : Path.Plain site)
    (hn : Path.Plain names) : fs.resolve (Path.mk .root (site ++ names)) =
      fs'.resolve (Path.mk .root (site ++ names)) := by
  have hup : ".." ∉ names := fun hm => (hn _ hm).2.1 rfl
  unfold FileSystem.resolve
  rw [h.realPath hs hn, h.symm.realPath hs hn, h.status hup]

end WebAtlas.FileSystem
