import WebAtlas.Proofs.Component.Directive
import WebAtlas.Proofs.Path.Append

/-! # Interactive components

Where the directive of an interactive component stands. The blanks behind a directive may lead over
several lines to the end of one, but then they lead to the end of the first line, too. So a text with a
directive is one with a directive on a line of its own.
-/
namespace WebAtlas.ExecutionContext
open Text
variable {text : List Char}

inductive Trail : List Char → Prop
  | bare {blanks : List Char} (h : Blank blanks) : Trail blanks
  | ended {blanks : List Char} (h : Blank blanks) : Trail (';' :: blanks)

/-- The directive in quotes and what may follow it. -/
inductive Directive : List Char → Prop
  | quoted {opening closing : Char} {trail : List Char} (ho : isQuote opening = true)
    (hc : isQuote closing = true) (ht : Trail trail) :
    Directive (opening :: ("use client".toList ++ closing :: trail))

def LineStarts (front : List Char) : Prop := ∀ c ∈ front.getLast?, c = '\n'

def LineEnds (back : List Char) : Prop := ∀ c ∈ back.head?, c = '\n'

/-- A directive goes from the start of a line to the end of that or of a later one. -/
def Marked (text : List Char) : Prop := ∃ front found back,
  text = front ++ (found ++ back) ∧ LineStarts front ∧ Directive found ∧ LineEnds back

theorem blankToLineEnd_iff : blankToLineEnd text = true ↔
    ∃ blanks back, Blank blanks ∧ text = blanks ++ back ∧ LineEnds back := by
  induction text with
  | nil => exact iff_of_true rfl ⟨[],[],List.forall_mem_nil _,rfl,by simp [LineEnds]⟩
  | cons c text ih =>
    rw [blankToLineEnd, Bool.or_eq_true, Bool.and_eq_true, ih, beq_iff_eq]
    constructor
    · rintro (rfl | ⟨hc,blanks,back,hblanks,rfl,hback⟩)
      · exact ⟨[],_,List.forall_mem_nil _,rfl,by simp [LineEnds]⟩
      · exact ⟨c :: blanks,back,List.forall_mem_cons.mpr ⟨hc,hblanks⟩,rfl,hback⟩
    · rintro ⟨blanks,back,hblanks,htext,hback⟩
      cases blanks with
      | nil =>
        rw [List.nil_append] at htext
        exact .inl (hback c (by rw [← htext]; rfl))
      | cons b blanks =>
        obtain ⟨rfl,rfl⟩ := List.cons.inj htext
        obtain ⟨hb,hblanks⟩ := List.forall_mem_cons.mp hblanks
        exact .inr ⟨hb,blanks,back,hblanks,rfl,hback⟩

theorem afterWord_semicolon_eq_none {blanks back : List Char} (hblanks : Blank blanks)
    (hback : LineEnds back) : afterWord [';'] (blanks ++ back) = none := by
  refine afterWord_eq_none rfl fun c hc => ?_
  rintro rfl
  cases blanks with
  | nil => cases hback _ hc
  | cons b blanks =>
    cases hc
    cases hblanks _ List.mem_cons_self

theorem trail_iff : blankToLineEnd ((afterWord [';'] text).getD text) = true ↔
    ∃ trail back, Trail trail ∧ text = trail ++ back ∧ LineEnds back := by
  constructor
  · intro h
    cases hsemicolon : afterWord [';'] text with
    | none =>
      rw [hsemicolon, Option.getD_none] at h
      obtain ⟨blanks,back,hblanks,htext,hback⟩ := blankToLineEnd_iff.mp h
      exact ⟨blanks,back,.bare hblanks,htext,hback⟩
    | some rest =>
      rw [hsemicolon, Option.getD_some] at h
      obtain ⟨blanks,back,hblanks,hrest,hback⟩ := blankToLineEnd_iff.mp h
      refine ⟨';' :: blanks,back,.ended hblanks,?_,hback⟩
      rw [afterWord_eq_some_iff.mp hsemicolon, hrest]
      rfl
  · rintro ⟨trail,back,htrail,rfl,hback⟩
    cases htrail with
    | bare hblanks =>
      rw [afterWord_semicolon_eq_none hblanks hback, Option.getD_none]
      exact blankToLineEnd_iff.mpr ⟨trail,back,hblanks,rfl,hback⟩
    | ended hblanks => exact blankToLineEnd_iff.mpr ⟨_,back,hblanks,rfl,hback⟩

theorem directiveStarts_iff : directiveStarts text = true ↔
    ∃ found back, Directive found ∧ text = found ++ back ∧ LineEnds back := by
  simp only [directiveStarts, bind, Option.any_eq_true, Option.bind_eq_some_iff, afterChar_eq_some_iff,
    afterWord_eq_some_iff, trail_iff]
  constructor
  · rintro ⟨_,⟨_,⟨opening,ho,rfl⟩,_,rfl,closing,hc,rfl⟩,trail,back,htrail,rfl,hback⟩
    exact ⟨_,back,.quoted ho hc htrail,by simp,hback⟩
  · rintro ⟨_,back,⟨ho,hc,htrail⟩,rfl,hback⟩
    exact ⟨_,⟨_,⟨_,ho,rfl⟩,_,by simp,_,hc,rfl⟩,_,back,htrail,rfl,hback⟩

/-- A search visits all places, and tells from the character before whether a line starts there. -/
theorem hasDirective_iff (lineStarts : Bool) : hasDirective lineStarts text = true ↔
    ∃ front ahead, text = front ++ ahead ∧ front.getLast?.elim lineStarts (· == '\n') = true ∧
      directiveStarts ahead = true := by
  induction text generalizing lineStarts with
  | nil => simp [hasDirective, directiveStarts, afterChar]
  | cons c text ih =>
    have hlast : ∀ front : List Char, (c :: front).getLast?.elim lineStarts (· == '\n') =
        front.getLast?.elim (c == '\n') (· == '\n') := by
      intro front
      cases h : front.getLast? <;> simp [List.getLast?_cons, h]
    rw [hasDirective, Bool.or_eq_true, Bool.and_eq_true, ih]
    constructor
    · rintro (⟨hstart,hhere⟩ | ⟨front,ahead,rfl,hstart,hahead⟩)
      · exact ⟨[],_,rfl,hstart,hhere⟩
      · exact ⟨c :: front,ahead,rfl,(hlast front).trans hstart,hahead⟩
    · rintro ⟨front,ahead,htext,hstart,hahead⟩
      cases front with
      | nil => exact .inl ⟨hstart,htext ▸ hahead⟩
      | cons d front =>
        obtain ⟨rfl,rfl⟩ := List.cons.inj htext
        exact .inr ⟨front,ahead,rfl,(hlast front).symm.trans hstart,hahead⟩

theorem hasDirective_iff_marked : hasDirective true text = true ↔ Marked text := by
  have hstart : ∀ front : List Char,
      front.getLast?.elim true (· == '\n') = true ↔ LineStarts front := by
    intro front
    cases h : front.getLast? <;> simp [LineStarts, h]
  simp only [hasDirective_iff, hstart, directiveStarts_iff]
  constructor
  · rintro ⟨front,_,rfl,hfront,found,back,hfound,rfl,hback⟩
    exact ⟨front,found,back,rfl,hfront,hfound,hback⟩
  · rintro ⟨front,found,back,rfl,hfront,hfound,hback⟩
    exact ⟨front,_,rfl,hfront,found,back,hfound,rfl,hback⟩

/-- On a line by itself a directive can only be the whole line. -/
theorem marked_line_iff (h : '\n' ∉ text) : Marked text ↔ Directive text := by
  constructor
  · rintro ⟨front,found,back,rfl,hfront,hfound,hback⟩
    have hnil : front = [] := by
      rw [← List.getLast?_eq_none_iff, Option.eq_none_iff_forall_ne_some]
      intro c hc
      obtain rfl := hfront c hc
      exact h (List.mem_append_left _ (List.mem_of_getLast? hc))
    have hnil' : back = [] := by
      rw [← List.head?_eq_none_iff, Option.eq_none_iff_forall_ne_some]
      intro c hc
      obtain rfl := hback c hc
      exact h (List.mem_append_right _ (List.mem_append_right _ (List.mem_of_head? hc)))
    rwa [hnil, hnil', List.nil_append, List.append_nil]
  · intro hdirective
    exact ⟨[],text,[],by simp,by simp [LineStarts],hdirective,by simp [LineEnds]⟩

theorem hasDirective_intercalate (lines : List (List Char)) :
    hasDirective true (['\n'].intercalate lines) = lines.any (hasDirective true) := by
  induction lines with
  | nil => rfl
  | cons line lines ih =>
    cases lines with
    | nil => simp
    | cons next lines =>
      rw [List.intercalate_cons_cons, List.append_assoc, List.singleton_append,
        hasDirective_append_lineFeed, ih, ← List.any_cons]

/-- A component is interactive when its text has a directive, and it has one when a line is one: the
blanks behind a directive need not be followed over the end of its line. -/
theorem infer_lines (text : String) :
    (infer text = .interactive ↔ Marked text.toList) ∧
    (infer text = .interactive ↔ ∃ line ∈ Text.splitOn '\n' text, Directive line.toList) := by
  have hinfer : infer text = .interactive ↔ hasDirective true text.toList = true := by
    unfold infer
    split <;> simp_all
  have hlines : hasDirective true text.toList = true ↔
      ∃ line ∈ text.toList.splitOn '\n', Directive line := by
    have hwhole := hasDirective_intercalate (text.toList.splitOn '\n')
    rw [List.intercalate_splitOn] at hwhole
    rw [hwhole, List.any_eq_true]
    refine exists_congr fun line => and_congr_right fun hline => ?_
    rw [hasDirective_iff_marked, marked_line_iff (Path.not_mem_of_mem_splitOn hline)]
  refine ⟨hinfer.trans hasDirective_iff_marked,hinfer.trans (hlines.trans ?_)⟩
  simp [Text.splitOn]

/-- The quotes may differ, and the blanks may lead past any number of line ends to a last one. -/
example : infer "// a\n\"use client';\u2003\n\t\n \nb" = .interactive ∧
    infer "'use client' ;" = .nonInteractive ∧ infer "'use client'\r b" = .nonInteractive := by
  decide

end WebAtlas.ExecutionContext
