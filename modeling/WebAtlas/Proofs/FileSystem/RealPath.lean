import WebAtlas.Proofs.FileSystem.Ends
import WebAtlas.Proofs.Path.Append
import Mathlib.Data.List.Perm.Subperm

/-! # Real paths are locations

Going along pieces ends where a walk along them does, links being followed on the way, and beyond the
place where a walk breaks off everything is kept as written. When a path leads to an entry its real
path is therefore the location of the entry. This holds as long as every link followed lies within the
length limit of a path: a link beyond the limit cannot be examined, so the real path keeps it as it is.
-/
namespace WebAtlas.FileSystem
variable {fs : FileSystem} {q : Path} {dir loc : Location} {piece target : String}
  {pieces rest : List String} {e : Ending} {asked : List Path}

section Steps
variable {enter : Path → Path → String → Except Path Path}

theorem realAlong_void (hv : Path.isVoid piece = true) :
    fs.realAlong enter q (piece :: rest) = fs.realAlong enter q rest := by
  rw [realAlong, if_pos hv]

theorem realAlong_stepUp :
    fs.realAlong enter q (".." :: rest) = fs.realAlong enter (stepUp q) rest := by
  rw [realAlong, if_neg (by decide), if_pos rfl]

theorem realAlong_up : fs.realAlong enter (Path.mk .root dir) (".." :: rest) =
    fs.realAlong enter (Path.mk .root dir.dropLast) rest := realAlong_stepUp

theorem realAlong_child (hv : Path.isVoid piece = false) (hu : piece ≠ "..")
    (ht : fs.linkTarget? (q.child piece) = none) :
    fs.realAlong enter q (piece :: rest) = fs.realAlong enter (q.child piece) rest := by
  rw [realAlong, if_neg (by simp [hv]), if_neg hu, ht]

theorem realAlong_keep (hp : Names piece)
    (ht : fs.linkTarget? (Path.mk .root (dir ++ [piece])) = none) :
    fs.realAlong enter (Path.mk .root dir) (piece :: rest) =
      fs.realAlong enter (Path.mk .root (dir ++ [piece])) rest := realAlong_child hp.1 hp.2.1 ht

theorem realAlong_enter {real : Path} (hp : Names piece)
    (ht : fs.linkTarget? (q.child piece) = some target)
    (he : enter q (q.child piece) target = .ok real) :
    fs.realAlong enter q (piece :: rest) = fs.realAlong enter real rest := by
  rw [realAlong, if_neg hp.void, if_neg hp.2.1, ht]
  simp only [he]

theorem realAlong_link {real : Path} (hp : Names piece)
    (ht : fs.linkTarget? (Path.mk .root (dir ++ [piece])) = some target)
    (he : enter (Path.mk .root dir) (Path.mk .root (dir ++ [piece])) target = .ok real) :
    fs.realAlong enter (Path.mk .root dir) (piece :: rest) = fs.realAlong enter real rest :=
  realAlong_enter hp ht he

theorem realAlong_link_error {stopped : Path} (hp : Names piece)
    (ht : fs.linkTarget? (Path.mk .root (dir ++ [piece])) = some target)
    (he : enter (Path.mk .root dir) (Path.mk .root (dir ++ [piece])) target = .error stopped) :
    fs.realAlong enter (Path.mk .root dir) (piece :: rest) = .error (withRest stopped rest) := by
  have ht' : fs.linkTarget? ((Path.mk .root dir).child piece) = some target := ht
  have he' : enter (Path.mk .root dir) ((Path.mk .root dir).child piece) target = .error stopped := he
  rw [realAlong, if_neg hp.void, if_neg hp.2.1, ht']
  simp only [he']

theorem withRest_nil (p : Path) : withRest p [] = p := by
  rcases p with ⟨anchor,segments⟩
  exact congrArg (Path.mk anchor) (List.append_nil segments)

theorem realAlong_append {p q : Path} {xs ys : List String} (h : fs.realAlong enter p xs = .ok q) :
    fs.realAlong enter p (xs ++ ys) = fs.realAlong enter q ys := by
  induction xs generalizing p with
  | nil => cases h; rfl
  | cons x xs ih =>
    rw [realAlong] at h
    rw [List.cons_append, realAlong]
    split at h
    · rename_i hv
      rw [if_pos hv]
      exact ih h
    · rename_i hv
      rw [if_neg hv]
      split at h
      · rename_i hu
        rw [if_pos hu]
        exact ih h
      · rename_i hu
        rw [if_neg hu]
        cases ht : fs.linkTarget? (p.child x) with
        | none =>
          simp only [ht] at h
          exact ih h
        | some target =>
          simp only [ht] at h ⊢
          cases he : enter p (p.child x) target with
          | error stopped => simp [he] at h
          | ok real =>
            simp only [he] at h
            exact ih h

/-- Going along the names of real directories enters them all. -/
theorem realAlong_append_of_isReal {enter : Path → Path → String → Except Path Path} {dir : Location}
    {rest names : List String} (h : fs.IsReal (dir ++ names)) :
    fs.realAlong enter (Path.mk .root dir) (names ++ rest) =
      fs.realAlong enter (Path.mk .root (dir ++ names)) rest := by
  induction names generalizing dir with
  | nil => simp
  | cons name names ih =>
    obtain ⟨hn,he⟩ := h dir name ⟨names,by simp⟩
    have hd : fs.IsReal dir := h.of_prefix (List.prefix_append ..)
    rw [List.cons_append, realAlong_keep hn (linkTarget?_eq_none_of_isReal hd hn (by simp [he])),
      @ih (dir ++ [name]) (by simpa using h), List.append_assoc, List.singleton_append]

/-- Beyond a path that is stuck everything is kept as written. -/
theorem realAlong_stuck (h : fs.Stuck q loc) (hup : ".." ∉ rest) (done : List String) :
    fs.realAlong enter (q.descend done) rest = .ok (q.descend (done ++ solid rest)) := by
  induction rest generalizing done with
  | nil =>
    rw [solid, List.filter_nil, List.append_nil]
    rfl
  | cons piece rest ih =>
    obtain ⟨hpiece,hrest⟩ := not_or.mp (List.mem_cons.not.mp hup)
    by_cases hv : Path.isVoid piece = true
    · rw [realAlong_void hv, ih hrest, solid, solid, List.filter_cons_of_neg (by simp [hv])]
    · have hsolid : solid (piece :: rest) = piece :: solid rest :=
        List.filter_cons_of_pos (by simpa using hv)
      have hchild : (q.descend done).child piece = q.descend (done ++ [piece]) := by
        simp [Path.child, Path.descend]
      have hnone : fs.linkTarget? ((q.descend done).child piece) = none := by
        cases h with
        | below hs hp he =>
          rw [hchild]
          exact linkTarget?_beyond hs hp he (by simp)
      rw [realAlong_child (by simpa using hv) (Ne.symm hpiece) hnone, hchild, ih hrest, hsolid,
        List.append_assoc]
      rfl

theorem Stuck.realAlong (h : fs.Stuck q loc) (hup : ".." ∉ rest) :
    fs.realAlong enter q rest = .ok (q.descend (solid rest)) := by
  have hrest := @realAlong_stuck fs q loc rest enter h hup []
  rw [Path.descend_nil] at hrest
  exact hrest

end Steps

/-- A link, with its place, whose target is being read: the walk along its target asks for at least
`least` links. -/
def PendingAt (fs : FileSystem) (least : Nat) (w : Path × Location) : Prop :=
  ∃ q dir piece target e asked, w = (q.child piece,dir ++ [piece]) ∧ fs.Stands q dir ∧
    fs.entry? (dir ++ [piece]) = some (.link target) ∧ least ≤ asked.length ∧
    fs.Ends (linkStart q target) (linkOrigin dir target) (Path.pieces target) e asked

/-- Links whose targets are being read, at different places. -/
structure Waiting (fs : FileSystem) (least : Nat) (waiting : List (Path × Location)) : Prop where
  each : ∀ w ∈ waiting, fs.PendingAt least w
  distinct : (waiting.map (·.2)).Nodup

variable {least least' : Nat} {waiting : List (Path × Location)}

theorem PendingAt.mono {w : Path × Location} (h : fs.PendingAt least w) (hl : least' ≤ least) :
    fs.PendingAt least' w := by
  obtain ⟨q,dir,piece,target,e,asked,hw,hs,he,hlength,hends⟩ := h
  exact ⟨q,dir,piece,target,e,asked,hw,hs,he,Nat.le_trans hl hlength,hends⟩

theorem Waiting.mono (h : fs.Waiting least waiting) (hl : least' ≤ least) : fs.Waiting least' waiting :=
  ⟨fun w hw => (h.each w hw).mono hl,h.distinct⟩

/-- Pending links are no more than the links of the file system. -/
theorem Waiting.length_le (h : fs.Waiting least waiting) : waiting.length ≤ fs.linkCount := by
  let links := (fs.entries.filter (·.2.isLink)).map (·.1)
  have hsites : waiting.map (·.2) ⊆ links := by
    intro site hsite
    obtain ⟨w,hw,rfl⟩ := List.mem_map.mp hsite
    obtain ⟨q,dir,piece,target,e,asked,rfl,-,he,-⟩ := h.each w hw
    have hm : (dir ++ [piece],Entry.link target) ∈ fs.entries := mem_entries_of_eq he (by simp)
    exact List.mem_map.mpr ⟨_,List.mem_filter.mpr ⟨hm,rfl⟩,rfl⟩
  calc waiting.length = (waiting.map (·.2)).length := (List.length_map _).symm
    _ ≤ links.length := (List.subperm_of_subset h.distinct hsites).length_le
    _ = fs.linkCount := by
      rw [List.length_map]
      exact List.countP_eq_length_filter.symm

/-- A link that asks for fewer links than the pending ones lies at a place of its own. -/
theorem Waiting.not_mem (h : fs.Waiting (asked.length + 1) waiting)
    (he : fs.entry? (dir ++ [piece]) = some (.link target))
    (hends : fs.Ends (linkStart q target) (linkOrigin dir target) (Path.pieces target) e asked) :
    dir ++ [piece] ∉ waiting.map (·.2) := by
  intro hm
  obtain ⟨w,hw,hsite⟩ := List.mem_map.mp hm
  obtain ⟨q',dir',piece',target',e',asked',rfl,-,he',hlength,hends'⟩ := h.each w hw
  obtain ⟨rfl,hpiece⟩ := List.append_inj' hsite rfl
  obtain ⟨rfl,-⟩ := List.cons.inj hpiece
  rw [he] at he'
  cases he'
  obtain ⟨-,-,-,hsame,-⟩ := hends.same hends'
  omega

theorem child_mem_waiting (hs : fs.Stands q dir) (h : fs.Waiting least waiting)
    (hm : q.child piece ∈ waiting.map (·.1)) : dir ++ [piece] ∈ waiting.map (·.2) := by
  obtain ⟨w,hw,hpath⟩ := List.mem_map.mp hm
  obtain ⟨q',dir',piece',target',e',asked',rfl,hs',-⟩ := h.each w hw
  obtain ⟨rfl,rfl⟩ := Path.child_injective hpath
  rw [hs.deterministic hs']
  exact List.mem_map_of_mem hw

/-- A target along which a walk ends is read to that end: the link itself is not met again, since the
walk would have to ask for as many links once more. -/
theorem realTarget_of_ends {depth : Nat} (hs : fs.Stands q dir)
    (he : fs.entry? (dir ++ [piece]) = some (.link target))
    (hends : fs.Ends (linkStart q target) (linkOrigin dir target) (Path.pieces target) e asked)
    (hw : fs.Waiting (asked.length + 1) waiting) (hdepth : fs.linkCount < depth + waiting.length)
    (ih : ∀ {depth : Nat} {waiting : List (Path × Location)}, fs.Waiting asked.length waiting →
      fs.linkCount < depth + waiting.length →
      fs.realAlong (fs.realTarget depth (waiting.map (·.1))) (linkStart q target)
        (Path.pieces target) = .ok e.whole) :
    fs.realTarget depth (waiting.map (·.1)) q (q.child piece) target = .ok e.whole := by
  have hsite := hw.not_mem he hends
  have hw' : fs.Waiting asked.length ((q.child piece,dir ++ [piece]) :: waiting) := by
    constructor
    · intro w hm
      rcases List.mem_cons.mp hm with rfl | hm
      · exact ⟨q,dir,piece,target,e,asked,rfl,hs,he,Nat.le_refl _,hends⟩
      · exact (hw.each w hm).mono (Nat.le_succ _)
    · exact List.nodup_cons.mpr ⟨hsite,hw.distinct⟩
  have hlength := hw'.length_le
  rw [List.length_cons] at hlength
  obtain ⟨depth,rfl⟩ : ∃ d, depth = d + 1 := ⟨depth - 1,by omega⟩
  rw [realTarget, if_neg fun hm => hsite (child_mem_waiting hs hw hm)]
  exact ih hw' (by rw [List.length_cons]; omega)

/-- Going along pieces ends where a walk along them does, if the walk asks for at most `count` links. -/
def GoesAlong (fs : FileSystem) (count : Nat) : Prop :=
  ∀ {pieces : List String} {q : Path} {dir : Location} {e : Ending} {asked : List Path} {depth : Nat}
    {waiting : List (Path × Location)}, fs.Ends q dir pieces e asked → asked.length ≤ count →
    (∀ a ∈ asked, a.text.utf8ByteSize ≤ pathLimit) → fs.Stands q dir → ".." ∉ e.ahead →
    fs.Waiting asked.length waiting → fs.linkCount < depth + waiting.length →
    fs.realAlong (fs.realTarget depth (waiting.map (·.1))) q pieces = .ok e.whole

/-- At a link the walk is split: its target takes the first part, and the rest goes on from there. -/
theorem GoesAlong.link {depth : Nat} (ih : ∀ count ≤ asked.length, fs.GoesAlong count)
    (hp : Names piece) (he : fs.entry? (dir ++ [piece]) = some (.link target))
    (h : fs.Ends (linkStart q target) (linkOrigin dir target) (Path.pieces target ++ rest) e asked)
    (hf : ∀ a ∈ q.child piece :: asked, a.text.utf8ByteSize ≤ pathLimit) (hs : fs.Stands q dir)
    (hup : ".." ∉ e.ahead) (hw : fs.Waiting (asked.length + 1) waiting)
    (hdepth : fs.linkCount < depth + waiting.length) :
    fs.realAlong (fs.realTarget depth (waiting.map (·.1))) q (piece :: rest) = .ok e.whole := by
  have hfl : ∀ a ∈ asked, a.text.utf8ByteSize ≤ pathLimit :=
    fun a ha => hf a (List.mem_cons_of_mem _ ha)
  have ht : fs.linkTarget? (q.child piece) = some target := by
    rw [linkTarget?_of_stands hs hp (hf _ List.mem_cons_self), he]
  have hstart := hs.linkStart target
  have hread : ∀ {e' before}, fs.Ends (linkStart q target) (linkOrigin dir target)
      (Path.pieces target) e' before → before.length ≤ asked.length → before ⊆ asked →
      ".." ∉ e'.ahead →
      fs.realTarget depth (waiting.map (·.1)) q (q.child piece) target = .ok e'.whole :=
    fun hm hl hsub hup' =>
      realTarget_of_ends hs he hm (hw.mono (Nat.succ_le_succ hl)) hdepth fun hw' hd' =>
        ih _ (Nat.le_refl _) hm hl (fun a ha => hfl a (hsub ha)) hstart hup' hw' hd'
  rcases h.split with ⟨path,mid,before,after,hm,hrest,rfl⟩ | ⟨found,ahead,hm,hfound,hahead⟩
  · have hmid : fs.Stands path mid := by
      rcases hm.stands_or_stuck hstart with ⟨-,-,h⟩ | ⟨h,-⟩
      · exact h
      · exact absurd rfl h
    have hpath := hread hm (by simp) (List.subset_append_left ..) (by simp)
    have hlength : after.length ≤ (before ++ after).length := by simp
    rw [Ending.whole_of_ahead_nil] at hpath
    rw [realAlong_enter hp ht hpath]
    exact ih _ hlength hrest (Nat.le_refl _) (fun a ha => hfl a (List.mem_append_right _ ha)) hmid hup
      (hw.mono (Nat.le_succ_of_le hlength)) hdepth
  · have hstuck : fs.Stuck e.path e.location := by
      rcases hm.stands_or_stuck hstart with ⟨h,-⟩ | ⟨-,h⟩
      · exact absurd h hfound
      · exact h
    rw [hahead, List.mem_append, not_or] at hup
    rw [realAlong_enter hp ht (hread hm (Nat.le_refl _) (List.Subset.refl _) hup.1),
      Ending.whole, realAlong_stuck hstuck hup.2, Ending.whole, hahead, solid, solid, solid,
      List.filter_append]

/-- The induction is on the number of links: while a target is read, every pending link asks for more
links than are still ahead, so none of them can be met again. -/
theorem goesAlong (count : Nat) : fs.GoesAlong count := by
  induction count using Nat.strongRecOn with
  | ind count ihc =>
  intro pieces q dir e asked depth waiting h hc hf hs hup hw hdepth
  induction pieces generalizing q dir asked with
  | nil =>
    cases h
    rw [Ending.whole, solid, List.filter_nil, Path.descend, List.append_nil]
    rfl
  | cons piece rest ih =>
    cases h with
    | void hv h => rw [realAlong_void hv]; exact ih h hc hf hs hw
    | up h => rw [realAlong_stepUp]; exact ih h hc hf hs.up hw
    | enter hp he h =>
      rw [realAlong_child hp.1 hp.2.1 (linkTarget?_of_no_link hs hp (by simp [he]))]
      exact ih h hc hf (hs.child hp he) hw
    | file hp he =>
      rw [realAlong_child hp.1 hp.2.1 (linkTarget?_of_no_link hs hp (by simp [he]))]
      simp [realAlong, Ending.whole, solid, Path.descend]
    | absent hp he =>
      rw [realAlong_child hp.1 hp.2.1 (linkTarget?_of_no_link hs hp (by simp [he]))]
      exact (Stuck.below hs hp (.inl he)).realAlong hup
    | beyond hp he hr =>
      rw [realAlong_child hp.1 hp.2.1 (linkTarget?_of_no_link hs hp (by simp [he]))]
      exact (Stuck.below hs hp (.inr ⟨_,he⟩)).realAlong hup
    | link hp he h =>
      exact GoesAlong.link (fun m hm => ihc m (Nat.lt_of_le_of_lt hm hc)) hp he h hf hs hup hw hdepth

/-- At first no target is being read. -/
theorem realAlong_of_ends_nil (h : fs.Ends q dir pieces e asked)
    (hf : ∀ a ∈ asked, a.text.utf8ByteSize ≤ pathLimit) (hs : fs.Stands q dir) (hup : ".." ∉ e.ahead) :
    fs.realAlong (fs.realTarget fs.linkDepth []) q pieces = .ok e.whole := by
  have hw : fs.Waiting asked.length [] := ⟨nofun,List.nodup_nil⟩
  have hdepth : fs.linkCount < fs.linkDepth + ([] : List (Path × Location)).length := by
    have hcount : fs.linkCount ≤ fs.linkCount * (fs.workingDirectory.length + 3) :=
      Nat.le_mul_of_pos_right _ (by omega)
    rw [linkDepth, List.length_nil]
    omega
  exact goesAlong asked.length h (Nat.le_refl _) hf hs hup hw hdepth

/-- What a walk leaves behind, written from the root. -/
theorem Ends.whole_absolute (h : fs.Ends q dir pieces e asked) (hs : fs.Stands q dir)
    (hup : ".." ∉ e.ahead) : e.whole.absolute fs.workingDirectory = Path.mk .root e.wholeLocation := by
  have hsolid : ∀ s ∈ solid e.ahead, s ≠ ".." := by
    rintro s hs rfl
    exact hup (List.mem_of_mem_filter hs)
  rcases h.stands_or_stuck hs with ⟨-,-,hstands⟩ | ⟨-,hstuck⟩
  · exact hstands.absolute hsolid
  · unfold Ending.whole Ending.wholeLocation
    rcases e with ⟨path,loc,found,ahead⟩
    cases hstuck with
    | @below q' dir' name hs' hp he =>
      have hnames : ∀ s ∈ name :: solid ahead, s ≠ ".." := List.forall_mem_cons.mpr ⟨hp.2.1,hsolid⟩
      simpa [Path.child, Path.descend] using hs'.absolute hnames

/-- The real path is where a walk ends, followed by what it has not gone through. -/
theorem realPath_of_ends {p : Path} (h : fs.Ends (readFrom p) (fs.origin p) p.segments e asked)
    (hf : ∀ a ∈ asked, a.text.utf8ByteSize ≤ pathLimit) (hs : fs.Stands (readFrom p) (fs.origin p))
    (hup : ".." ∉ e.ahead) : fs.realPath p = Path.mk .root e.wholeLocation := by
  have halong := realAlong_of_ends_nil h hf hs hup
  unfold readFrom at halong
  unfold realPath
  rw [halong]
  exact h.whole_absolute hs hup

/-- Going along an absolute path that leads somewhere ends where it leads. -/
theorem realAlong_root {pieces : List String} {loc : Location} {entry : Entry}
    {links : List Location} (h : fs.Leads [] pieces loc entry links) (hf : ∀ l ∈ links, Fits l) :
    fs.realAlong (fs.realTarget fs.linkDepth []) (Path.mk .root []) pieces =
      .ok (Path.mk .root loc) := by
  have hasked : ∀ a ∈ links.map (Path.mk .root), a.text.utf8ByteSize ≤ pathLimit :=
    List.forall_mem_map.mpr hf
  have halong := realAlong_of_ends_nil h.ends hasked .root List.not_mem_nil
  rwa [Ending.whole_of_ahead_nil] at halong

theorem realPath_eq {p : Path} {loc : Location} (ha : p.isAbsolute = true)
    (hr : fs.realAlong (fs.realTarget fs.linkDepth []) (Path.mk .root []) p.segments =
      .ok (Path.mk .root loc)) (hn : ∀ name ∈ loc, name ≠ "..") :
    fs.realPath p = Path.mk .root loc := by
  unfold realPath
  rw [if_pos ha, hr]
  exact Path.normalize_of_forall_ne hn

/-- A walk that stops gives the path at which it stopped. -/
theorem realPath_of_stopped {p : Path} {loc : Location} (ha : p.isAbsolute = true)
    (hr : fs.realAlong (fs.realTarget fs.linkDepth []) (Path.mk .root []) p.segments =
      .error (Path.mk .root loc)) (hn : ∀ name ∈ loc, name ≠ "..") :
    fs.realPath p = Path.mk .root loc := by
  unfold realPath
  rw [if_pos ha, hr]
  exact Path.normalize_of_forall_ne hn

/-- The real path of an absolute path that leads somewhere is where it leads, when every link
followed on the way lies at a location that fits. -/
theorem realPath_of_leads {p : Path} {loc : Location} {entry : Entry} {links : List Location}
    (ha : p.isAbsolute = true) (h : fs.Leads [] p.segments loc entry links)
    (hf : ∀ l ∈ links, Fits l) : fs.realPath p = Path.mk .root loc :=
  realPath_eq ha (realAlong_root h hf) fun name hm => ((h.real isReal_nil).1 name hm).2.1

/-- A last name that is not seen to be a link is kept as it is. -/
theorem realPath_snoc {p : Path} {loc : Location} {name : String} {links : List Location}
    (ha : p.isAbsolute = true) (h : fs.Leads [] p.segments loc .directory links)
    (hf : ∀ l ∈ links, Fits l) (hv : Path.isVoid name = false) (hu : name ≠ "..")
    (ht : fs.linkTarget? (Path.mk .root (loc ++ [name])) = none) :
    fs.realPath (p.child name) = Path.mk .root (loc ++ [name]) := by
  have hc : (p.child name).isAbsolute = true := ha
  apply realPath_eq hc
  · rw [Path.child, realAlong_append (realAlong_root h hf), realAlong_child hv hu ht]
    rfl
  · intro n hm
    rcases List.mem_append.mp hm with hm | hm
    · exact ((h.real isReal_nil).1 n hm).2.1
    · exact List.mem_singleton.mp hm ▸ hu

/-- So is a last link at a location that does not fit. -/
theorem realPath_of_long {p : Path} {loc : Location} {name : String} {links : List Location}
    (ha : p.isAbsolute = true) (h : fs.Leads [] p.segments loc .directory links)
    (hf : ∀ l ∈ links, Fits l) (hn : Names name) (hlong : ¬ Fits (loc ++ [name])) :
    fs.realPath (p.child name) = Path.mk .root (loc ++ [name]) :=
  realPath_snoc ha h hf hn.1 hn.2.1 (linkTarget?_eq_none (Nat.not_le.mp hlong))

theorem resolve_eq_ok {p real : Path} (h : fs.resolve p = .ok real) : real = fs.realPath p := by
  unfold resolve at h
  split at h
  · cases h
  · split at h <;> cases h
    rfl

theorem resolve_isAbsolute {p real : Path} (h : fs.resolve p = .ok real) :
    real.isAbsolute = true := by
  rw [resolve_eq_ok h]
  unfold realPath
  split <;> exact Path.absolute_isAbsolute _ _

theorem resolve_ne_dotdot {p real : Path} (h : fs.resolve p = .ok real) :
    ∀ s ∈ real.segments, s ≠ ".." := by
  rw [resolve_eq_ok h]
  unfold realPath
  split
  · exact Path.normalize_ne_dotdot (Path.join_isAbsolute rfl _)
  · exact Path.normalize_ne_dotdot (Path.join_isAbsolute rfl _)

/-- An absolute path none of whose segments is passed over by a look-up. -/
structure Firm (p : Path) : Prop where
  isAbsolute : p.isAbsolute = true
  segments : ∀ s ∈ p.segments, Path.isVoid s = false

namespace Firm
variable {p : Path}

theorem child (h : Firm p) (hv : Path.isVoid piece = false) : Firm (p.child piece) where
  isAbsolute := h.isAbsolute
  segments s hs := by
    rcases List.mem_append.mp hs with hs | hs
    · exact h.segments s hs
    · exact List.mem_singleton.mp hs ▸ hv

theorem stepUp (h : Firm p) : Firm (stepUp p) := by
  unfold FileSystem.stepUp
  rw [if_pos h.isAbsolute]
  exact ⟨h.isAbsolute,fun s hs => h.segments s (List.dropLast_subset _ hs)⟩

theorem withRest (h : Firm p) (rest : List String) : Firm (withRest p rest) where
  isAbsolute := Path.join_isAbsolute h.isAbsolute _
  segments s hs := by
    unfold FileSystem.withRest Path.join at hs
    split at hs
    · exact (Path.parse_segments hs).1
    · rcases List.mem_append.mp hs with hs | hs
      · exact h.segments s hs
      · exact (Path.parse_segments hs).1

theorem absolute (h : Firm p) (origin : List String) : Firm (p.absolute origin) := by
  rw [Path.absolute, Path.join, if_pos h.isAbsolute]
  exact ⟨h.isAbsolute,fun s hs => h.segments s (Path.mem_of_mem_normalize h.isAbsolute hs)⟩

end Firm

/-- Where going along a path gets to, or stops. -/
def Reached (outcome : Except Path Path) (p : Path) : Prop := outcome = .ok p ∨ outcome = .error p

theorem reached_ok {p real : Path} : Reached (.ok p) real ↔ p = real := by simp [Reached]

theorem reached_error {p real : Path} : Reached (.error p) real ↔ p = real := by simp [Reached]

/-- Void pieces are left out on a way, whether it is gone to its end or stops at a link. -/
theorem realAlong_firm {enter : Path → Path → String → Except Path Path}
    (henter : ∀ dir link target real, Firm dir → Firm link → Reached (enter dir link target) real →
      Firm real)
    {q real : Path} (hq : Firm q) (h : Reached (fs.realAlong enter q pieces) real) : Firm real := by
  induction pieces generalizing q with
  | nil =>
    rw [realAlong] at h
    exact reached_ok.mp h ▸ hq
  | cons piece rest ih =>
    by_cases hv : Path.isVoid piece = true
    · rw [realAlong_void hv] at h
      exact ih hq h
    · by_cases hu : piece = ".."
      · rw [hu, realAlong_stepUp] at h
        exact ih hq.stepUp h
      · have hchild : Firm (q.child piece) := hq.child (Bool.not_eq_true _ ▸ hv)
        rw [realAlong, if_neg hv, if_neg hu] at h
        cases ht : fs.linkTarget? (q.child piece) with
        | none =>
          simp only [ht] at h
          exact ih hchild h
        | some target =>
          simp only [ht] at h
          cases hlink : enter q (q.child piece) target with
          | ok next =>
            simp only [hlink] at h
            exact ih (henter _ _ _ next hq hchild (.inl hlink)) h
          | error stopped =>
            simp only [hlink] at h
            exact reached_error.mp h ▸ (henter _ _ _ stopped hq hchild (.inr hlink)).withRest rest

theorem realTarget_firm (depth : Nat) (pending : List Path) (dir link : Path) (target : String)
    (real : Path) (hdir : Firm dir) (hlink : Firm link)
    (h : Reached (fs.realTarget depth pending dir link target) real) : Firm real := by
  induction depth generalizing pending dir link target real with
  | zero =>
    rw [realTarget] at h
    exact reached_error.mp h ▸ hlink
  | succ depth ih =>
    rw [realTarget] at h
    split at h
    · exact reached_error.mp h ▸ hlink
    · refine realAlong_firm (ih _) ?_ h
      split
      · exact ⟨rfl,fun s hs => absurd hs List.not_mem_nil⟩
      · exact hdir

theorem resolve_firm {p real : Path} (hp : p.isAbsolute = true) (h : fs.resolve p = .ok real) :
    Firm real := by
  have hstart : Firm ⟨if p.isAbsolute then .root else .relative,[]⟩ := by
    rw [if_pos hp]
    exact ⟨rfl,fun s hs => absurd hs List.not_mem_nil⟩
  have hreached : ∀ next, Reached (fs.realAlong (fs.realTarget fs.linkDepth [])
      ⟨if p.isAbsolute then .root else .relative,[]⟩ p.segments) next → Firm next := fun next =>
    realAlong_firm (realTarget_firm _ _) hstart
  rw [resolve_eq_ok h, realPath]
  split
  · exact (hreached _ (.inl ‹_›)).absolute _
  · exact (hreached _ (.inr ‹_›)).absolute _

theorem resolve_of_null {p : Path} (hz : p.segments.any Path.holdsNull = true) :
    fs.resolve p = .error .nullByte := if_pos hz

theorem resolve_of_ne {p real : Path} (hz : p.segments.any Path.holdsNull = false)
    (h : fs.realPath p = real) (hs : fs.status real ≠ .error .tooManyLinks) :
    fs.resolve p = .ok real := by
  unfold resolve
  rw [hz, if_neg Bool.false_ne_true, h]
  split
  · exact absurd ‹_› hs
  · rfl

theorem resolve_of_status {p real : Path} {found : Location × Entry}
    (hz : p.segments.any Path.holdsNull = false) (h : fs.realPath p = real)
    (hs : fs.status real = .ok found) : fs.resolve p = .ok real := resolve_of_ne hz h (by simp [hs])

theorem resolve_of_loop {p real : Path} (hz : p.segments.any Path.holdsNull = false)
    (h : fs.realPath p = real) (hs : fs.status real = .error .tooManyLinks) :
    fs.resolve p = .error (.linkLoop real) := by
  unfold resolve
  rw [hz, if_neg Bool.false_ne_true, h, hs]

/-- A real path that cannot be looked up for its length counts as resolved. -/
theorem resolve_of_long {p real : Path} (hz : p.segments.any Path.holdsNull = false)
    (h : fs.realPath p = real) (hlong : pathLimit < real.text.utf8ByteSize) : fs.resolve p = .ok real := by
  have hs : fs.status real = .error .nameTooLong := by
    unfold status locate
    rw [if_pos hlong]
  exact resolve_of_ne hz h (by simp [hs])

/-- A path whose real path is a location is resolved to it, also when the location does not fit. -/
theorem resolve_of_location {p : Path} {loc : Location} {entry : Entry}
    (hz : p.segments.any Path.holdsNull = false) (h : fs.realPath p = Path.mk .root loc)
    (hl : fs.Leads [] loc loc entry []) : fs.resolve p = .ok (Path.mk .root loc) := by
  by_cases hfit : Fits loc
  · have hs : fs.status (Path.mk .root loc) = .ok (loc,entry) :=
      status_eq_ok_iff.mpr ⟨hfit,[],Nat.zero_le _,hl⟩
    exact resolve_of_status hz h hs
  · exact resolve_of_long hz h (Nat.not_le.mp hfit)

/-- A path that leads somewhere through links that fit is resolved to where it leads. -/
theorem resolve_of_leads {p : Path} {loc : Location} {entry : Entry} {links : List Location}
    (ha : p.isAbsolute = true) (h : fs.Leads [] p.segments loc entry links)
    (hf : ∀ l ∈ links, Fits l) : fs.resolve p = .ok (Path.mk .root loc) :=
  resolve_of_location h.any_holdsNull (realPath_of_leads ha h hf) (h.location isReal_nil)

/-- Every link on the way along a path is asked for by a path that is short enough to be looked up. -/
def LinksFit (fs : FileSystem) (p : Path) : Prop :=
  ∀ e asked, fs.Ends (readFrom p) (fs.origin p) p.segments e asked →
    ∀ a ∈ asked, a.text.utf8ByteSize ≤ pathLimit

theorem linksFit_of_leads {p : Path} {loc : Location} {entry : Entry} {links : List Location}
    (ha : p.isAbsolute = true) (h : fs.Leads [] p.segments loc entry links)
    (hf : ∀ l ∈ links, Fits l) : fs.LinksFit p := by
  intro e asked hends
  have hfrom : readFrom p = Path.mk .root [] := congrArg (Path.mk · []) (if_pos ha)
  have horigin : fs.origin p = [] := if_pos ha
  rw [hfrom, horigin] at hends
  obtain ⟨-,-,-,-,hasked⟩ := h.ends.same hends
  rw [← hasked rfl]
  exact List.forall_mem_map.mpr hf

/-- A path that leads somewhere, from wherever it is read, is resolved to where it leads. -/
theorem LinksFit.resolve {p : Path} {loc : Location} {entry : Entry} (h : fs.LinksFit p)
    (hwd : fs.IsReal fs.workingDirectory) (hs : fs.status p = .ok (loc,entry)) :
    fs.resolve p = .ok (Path.mk .root loc) := by
  have hstands := stands_readFrom hwd p
  obtain ⟨-,links,-,hleads⟩ := status_eq_ok_iff.mp hs
  obtain ⟨path,asked,hends⟩ := hleads.ends_from (readFrom p)
  have hreal := realPath_of_ends hends (h _ _ hends) hstands List.not_mem_nil
  rw [Ending.wholeLocation, solid, List.filter_nil, List.append_nil] at hreal
  exact resolve_of_location (any_holdsNull_of_status hs) hreal (hleads.location hstands.real)

end WebAtlas.FileSystem
