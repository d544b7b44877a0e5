import WebAtlas.Source.Text
import WebAtlas.Proofs.Path.Steps

/-! # Relative names

Records show a file below the project root by the names on the way to it, joined by slashes, and any
other file by the steps that lead to it from the root. These can be read back, so different files have
different relative names.
-/
namespace WebAtlas
variable {fs : FileSystem} {root file other : Path} {names : List String}

theorem Path.stepsBetween_append (origin names : List String) :
    stepsBetween origin (origin ++ names) = names := by
  induction origin with
  | nil => rfl
  | cons first origin ih => rw [List.cons_append, stepsBetween, if_pos rfl, ih]

theorem Path.absolute_of_forall_ne {p : Path} (hp : p.isAbsolute = true)
    (h : ∀ s ∈ p.segments, s ≠ "..") (origin : List String) : p.absolute origin = p := by
  rw [absolute, join, if_pos hp]
  exact normalize_of_forall_ne h

theorem Path.intercalate_inj {names' : List String} (h : Plain names) (h' : Plain names')
    (heq : "/".intercalate names = "/".intercalate names') : names = names' := by
  have hparse := parse_plain h
  rw [heq, parse_plain h'] at hparse
  exact (Path.mk.inj hparse).2.symm

theorem Path.text_relative (hn : names ≠ []) :
    (Path.mk .relative names).text = "/".intercalate names := by
  rw [text, if_neg (by simp [hn])]
  exact String.empty_append

theorem Path.descend_ne_dotdot (hroot : ∀ s ∈ root.segments, s ≠ "..") (hn : Plain names) :
    ∀ s ∈ (root.descend names).segments, s ≠ ".." := by
  intro s hs
  rcases List.mem_append.mp hs with hs | hs
  · exact hroot s hs
  · exact (hn s hs).2.1

theorem Source.relativeName_descend (ha : root.isAbsolute = true)
    (hroot : ∀ s ∈ root.segments, s ≠ "..") (hn : Path.Plain names) (hne : names ≠ []) :
    relativeName fs root (root.descend names) = "/".intercalate names := by
  have hfile := Path.descend_ne_dotdot hroot hn
  have habsolute : (root.descend names).isAbsolute = true := ha
  rw [relativeName, Path.absolute_of_forall_ne ha hroot, Path.absolute_of_forall_ne habsolute hfile,
    Path.relativeTo, Path.descend, Path.stepsBetween_append, Path.text_relative hne]

/-- A file whose steps from a directory are written like plain names lies below it by these names. -/
theorem Path.segments_of_relativeTo (hfile : Plain file.segments) (hn : Plain names) (hne : names ≠ [])
    (h : (root.relativeTo file).text = "/".intercalate names) :
    file.segments = root.segments ++ names := by
  obtain ⟨shared,up,down,hr,hf,hsteps⟩ := stepsBetween_split root.segments file.segments
  have hnames : List.replicate up.length ".." ++ down = names := by
    have hparse := parse_of_written (@Written.relativeTo root file hfile)
    rw [h, ← text_relative hne, parse_of_written (p := .mk .relative names) hn.written] at hparse
    rw [← hsteps]
    exact (congrArg Path.segments hparse).symm
  have hup : up = [] := by
    cases up with
    | nil => rfl
    | cons d up => exact absurd rfl (hn ".." (by rw [← hnames]; simp)).2.1
  subst hup
  rw [hr, hf, ← hnames]
  simp

theorem Path.Normalised.absolute (h : root.Normalised) (origin : List String) :
    root.absolute origin = root := absolute_of_forall_ne h.isAbsolute h.ne_dotdot origin

namespace Source

theorem segments_of_relativeName (ha : root.isAbsolute = true) (hroot : ∀ s ∈ root.segments, s ≠ "..")
    (hf : file.isAbsolute = true) (hfile : Path.Plain file.segments) (hn : Path.Plain names)
    (hne : names ≠ []) (h : relativeName fs root file = "/".intercalate names) :
    file.segments = root.segments ++ names := by
  rw [relativeName, Path.absolute_of_forall_ne ha hroot,
    Path.absolute_of_forall_ne hf fun s hs => (hfile s hs).2.1] at h
  exact Path.segments_of_relativeTo hfile hn hne h

/-- A relative name is read back as the steps that it was written for. -/
theorem parse_relativeName (hroot : root.Normalised) (hfile : file.Normalised) :
    Path.parse (relativeName fs root file) = root.relativeTo file := by
  rw [relativeName, hroot.absolute, hfile.absolute]
  exact Path.parse_of_written (Path.Written.relativeTo hfile.plain)

theorem join_relativeName (hroot : root.Normalised) (hfile : file.Normalised) :
    (root.join (Path.parse (relativeName fs root file))).normalize = file := by
  rw [parse_relativeName hroot hfile]
  exact Path.normalize_join_relativeTo hroot hfile

theorem relativeName_inj (hroot : root.Normalised) (hfile : file.Normalised)
    (hother : other.Normalised) (h : relativeName fs root other = relativeName fs root file) :
    other = file := by
  rw [← @join_relativeName fs root other hroot hother, h, join_relativeName hroot hfile]

end Source

end WebAtlas
