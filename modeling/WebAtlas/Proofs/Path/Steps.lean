import WebAtlas.Proofs.Path.Append

/-! # Steps down and up

Normalising takes a step down back for each step up. So the steps from a directory to a file lead, from
the directory, to that file.
-/
namespace WebAtlas.Path
variable {p root file : Path} {dirs names : List String}

theorem push_down_up {name : String} (h : name ≠ "..") (rooted : Bool) (stack : List String) :
    push rooted (push rooted stack name) ".." = stack := by
  have hdown : push rooted stack name = name :: stack := if_pos h
  rw [hdown, push, if_neg (not_not_intro rfl)]
  exact if_neg h

/-- As many steps up as there were steps down lead back. -/
theorem foldl_push_back (h : ∀ d ∈ dirs, d ≠ "..") (rooted : Bool) (stack : List String) :
    (dirs ++ List.replicate dirs.length "..").foldl (push rooted) stack = stack := by
  induction dirs generalizing stack with
  | nil => rfl
  | cons d dirs ih =>
    obtain ⟨hd,hdirs⟩ := List.forall_mem_cons.mp h
    -- the last step up belongs to the first step down, so the inner steps meet before it
    rw [List.length_cons, List.replicate_succ', List.cons_append, List.foldl_cons, ← List.append_assoc,
      List.foldl_append, ih hdirs]
    exact push_down_up hd rooted stack

theorem normalize_descend_eq (p : Path) (names : List String) : (p.descend names).normalize =
    ⟨p.anchor,(names.foldl (push p.isAbsolute) (p.segments.foldl (push p.isAbsolute) [])).reverse⟩ := by
  change mk p.anchor ((p.segments ++ names).foldl (push p.isAbsolute) []).reverse = _
  rw [List.foldl_append]

/-- Steps up from a directory are taken back by normalising. -/
theorem normalize_descend_back (h : ∀ d ∈ dirs, d ≠ "..") (p : Path) (names : List String) :
    (p.descend (dirs ++ List.replicate dirs.length ".." ++ names)).normalize =
      (p.descend names).normalize := by
  rw [normalize_descend_eq, List.foldl_append, foldl_push_back h, normalize_descend_eq]

/-- What lies below a path without a step up lies below its normalised form. -/
theorem normalize_descend (h : ".." ∉ names) (p : Path) :
    (p.descend names).normalize = p.normalize.descend names := by
  have hnames : ∀ s ∈ names, s ≠ ".." := fun s hs heq => h (heq ▸ hs)
  rw [normalize_descend_eq, foldl_push hnames, List.reverse_append, List.reverse_reverse]
  rfl

theorem join_of_relative (p : Path) {q : Path} (h : q.anchor = .relative) :
    p.join q = p.descend q.segments := by
  have hrelative : ¬ q.isAbsolute = true := by simp [isAbsolute, h]
  exact if_neg hrelative

/-- Absolute from one slash, without a step up and without names that a written path would lose. -/
structure Normalised (p : Path) : Prop where
  anchor : p.anchor = .root
  plain : Plain p.segments

instance : DecidablePred Normalised := fun p =>
  decidable_of_iff (p.anchor = .root ∧ Plain p.segments) ⟨fun h => ⟨h.1,h.2⟩,fun h => ⟨h.anchor,h.plain⟩⟩

theorem Normalised.isAbsolute (h : Normalised p) : p.isAbsolute = true := by
  simp [Path.isAbsolute, h.anchor]

theorem Normalised.ne_dotdot (h : Normalised p) : ∀ s ∈ p.segments, s ≠ ".." :=
  fun s hs => (h.plain s hs).2.1

/-- The steps between two directories go up to one above both and then down. -/
theorem stepsBetween_split (origin target : List String) : ∃ shared up down,
    origin = shared ++ up ∧ target = shared ++ down ∧
      stepsBetween origin target = List.replicate up.length ".." ++ down := by
  induction origin generalizing target with
  | nil => exact ⟨[],[],target,rfl,rfl,rfl⟩
  | cons o origin ih =>
    cases target with
    | nil => exact ⟨[],o :: origin,[],rfl,rfl,by rw [List.append_nil, ← List.map_const']; rfl⟩
    | cons t target =>
      rw [stepsBetween]
      split
      · rename_i heq
        subst heq
        obtain ⟨shared,up,down,rfl,rfl,hsteps⟩ := ih target
        exact ⟨o :: shared,up,down,rfl,rfl,hsteps⟩
      · exact ⟨[],o :: origin,t :: target,rfl,rfl,by rw [List.map_const']⟩

theorem Written.relativeTo (h : Plain file.segments) : Written (root.relativeTo file).segments := by
  obtain ⟨shared,up,down,-,hfile,hsteps⟩ := stepsBetween_split root.segments file.segments
  rw [Path.relativeTo, hsteps]
  refine Written.append (fun n hn => ?_) (Plain.written fun n hn => h n ?_)
  · rw [List.eq_of_mem_replicate hn]
    decide
  · rw [hfile]
    exact List.mem_append_right _ hn

/-- The steps from a directory to a file lead to the file. -/
theorem normalize_join_relativeTo (hroot : Normalised root) (hfile : Normalised file) :
    (root.join (root.relativeTo file)).normalize = file := by
  obtain ⟨shared,up,down,hr,hf,hsteps⟩ := stepsBetween_split root.segments file.segments
  have hup : ∀ d ∈ up, d ≠ ".." := fun d hd =>
    hroot.ne_dotdot d (by rw [hr]; exact List.mem_append_right _ hd)
  calc (root.join (root.relativeTo file)).normalize
      = ((mk .root shared).descend (up ++ List.replicate up.length ".." ++ down)).normalize := by
        rw [join_of_relative root rfl, descend, descend, Path.relativeTo, hsteps, hroot.anchor, hr]
        simp only [List.append_assoc]
    _ = (mk .root (shared ++ down)).normalize := normalize_descend_back hup (mk .root shared) down
    _ = file.normalize := by rw [← hf, ← hfile.anchor]
    _ = file := normalize_of_forall_ne hfile.ne_dotdot

end WebAtlas.Path
