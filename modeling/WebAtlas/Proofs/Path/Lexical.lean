import WebAtlas.Path.Basic

/-! # Paths as written

What normalising keeps of a path, which paths are absolute, and what it means for one path to lie
below another.
-/
namespace WebAtlas.Path

theorem foldl_push {rooted : Bool} {stack segments : List String} (h : ∀ s ∈ segments, s ≠ "..") :
    segments.foldl (push rooted) stack = segments.reverse ++ stack := by
  induction segments generalizing stack with
  | nil => rfl
  | cons s segments ih =>
    have hs : push rooted stack s = s :: stack := if_pos (h s List.mem_cons_self)
    rw [List.foldl_cons, hs, ih fun t ht => h t (List.mem_cons_of_mem _ ht)]
    simp

/-- Only `..` is cancelled, so a path without it is normalised already. -/
theorem normalize_of_forall_ne {p : Path} (h : ∀ s ∈ p.segments, s ≠ "..") : p.normalize = p := by
  rw [normalize, foldl_push h]
  simp

/-- An absolute path is left without `..` by normalising. -/
theorem normalize_ne_dotdot {p : Path} (hp : p.isAbsolute = true) :
    ∀ s ∈ p.normalize.segments, s ≠ ".." := by
  have hpush : ∀ segments stack : List String, (∀ s ∈ stack, s ≠ "..") →
      ∀ s ∈ segments.foldl (push true) stack, s ≠ ".." := by
    intro segments
    induction segments with
    | nil => exact fun stack h => h
    | cons segment segments ih =>
      intro stack h
      refine ih _ ?_
      unfold push
      split
      · rename_i hne
        exact List.forall_mem_cons.mpr ⟨hne,h⟩
      · cases stack with
        | nil => exact h
        | cons top below =>
          obtain ⟨htop,hbelow⟩ := List.forall_mem_cons.mp h
          simpa only [if_neg htop] using hbelow
  intro s hs
  rw [normalize, hp] at hs
  exact hpush p.segments [] (fun s hs => absurd hs List.not_mem_nil) s (List.mem_reverse.mp hs)

@[simp] theorem normalize_isAbsolute (p : Path) : p.normalize.isAbsolute = p.isAbsolute := rfl

theorem join_isAbsolute {p : Path} (hp : p.isAbsolute = true) (q : Path) :
    (p.join q).isAbsolute = true := by
  unfold join
  split
  · assumption
  · exact hp

theorem absolute_isAbsolute (origin : List String) (p : Path) :
    (p.absolute origin).isAbsolute = true := by
  rw [absolute, normalize_isAbsolute]
  exact join_isAbsolute rfl p

/-- A text that starts with a slash is read as an absolute path. -/
theorem parse_isAbsolute {text : String} (h : text.toList.head? = some '/') :
    (parse text).isAbsolute = true := by
  unfold parse isAbsolute
  obtain ⟨rest,hr⟩ := List.head?_eq_some_iff.mp h
  rw [hr]
  cases rest with
  | nil => rfl
  | cons c rest =>
    by_cases hc : c = '/'
    · subst hc
      cases rest with
      | nil => rfl
      | cons d rest => by_cases hd : d = '/' <;> simp [Anchor.ofChars, hd]
    · simp [Anchor.ofChars, hc]

theorem append_isAbsolute {p : Path} (hp : p.isAbsolute = true) (ending : String) :
    (p.append ending).isAbsolute = true := by
  apply parse_isAbsolute
  rcases p with ⟨anchor,segments⟩
  cases anchor with
  | relative => cases hp
  | root => simp [text, Anchor.text]
  | doubleRoot => simp [text, Anchor.text]

theorem child_injective {p q : Path} {m n : String} (h : p.child m = q.child n) : p = q ∧ m = n := by
  obtain ⟨anchor,segments⟩ := p
  obtain ⟨anchor',segments'⟩ := q
  obtain ⟨rfl,hs⟩ := mk.inj h
  obtain ⟨rfl,hn⟩ := List.append_inj' hs rfl
  exact ⟨rfl,(List.cons.inj hn).1⟩

theorem descend_nil (p : Path) : p.descend [] = p := by
  obtain ⟨anchor,segments⟩ := p
  exact congrArg (mk anchor) (List.append_nil segments)

/-- The path is the directory `root` or lies below it. -/
def Within (root p : Path) : Prop := p.anchor = root.anchor ∧ root.segments <+: p.segments

theorem isBelow_iff {root p : Path} : root.isBelow p = true ↔
    p.anchor = root.anchor ∧ ∃ names, names ≠ [] ∧ p.segments = root.segments ++ names := by
  simp only [isBelow, Bool.and_eq_true, beq_iff_eq, List.isPrefixOf_iff_prefix, decide_eq_true_eq]
  constructor
  · rintro ⟨⟨ha,names,hn⟩,hl⟩
    refine ⟨ha,names,?_,hn.symm⟩
    rintro rfl
    simp [← hn] at hl
  · rintro ⟨ha,names,hne,hn⟩
    refine ⟨⟨ha,names,hn.symm⟩,?_⟩
    rw [hn, List.length_append]
    have := List.length_pos_iff.mpr hne
    omega

/-- The two ways of not being denied for the path as written. -/
theorem within_iff {root p : Path} : root.Within p ↔ p = root ∨ root.isBelow p = true := by
  rw [isBelow_iff]
  constructor
  · rintro ⟨ha,names,hn⟩
    by_cases h : names = []
    · subst h
      rcases p with ⟨anchor,segments⟩
      rcases root with ⟨anchor',segments'⟩
      simp_all
    · exact .inr ⟨ha,names,h,hn.symm⟩
  · rintro (rfl | ⟨ha,names,-,hn⟩)
    · exact ⟨rfl,List.prefix_refl _⟩
    · exact ⟨ha,names,hn.symm⟩

end WebAtlas.Path
