import WebAtlas.Proofs.Text.Scan
import WebAtlas.Text.Cues
import Mathlib.Data.List.Infix

/-! # Occurrences and lines

A search finds what a text contains as an infix. A text that stands on lines of its own in a larger
one is an infix of it, and so is its lowercased form in the lowercased whole: a line feed is neither
a letter nor passed over, so no sigma looks across it.
-/
namespace WebAtlas.Text
variable {needle text whole : List Char} {cues : List String}

theorem somewhere_iff {test : List Char → Bool} :
    somewhere test text = true ↔ ∃ ahead, ahead <:+ text ∧ test ahead = true := by
  induction text with
  | nil => simp [somewhere]
  | cons c text ih => simp [somewhere, ih, List.suffix_cons_iff, or_and_right, exists_or]

/-- A test of what a text starts with, made at all places, looks for an infix. -/
theorem somewhere_iff_contains {test : List Char → Bool} {accepted : List Char → Prop}
    (h : ∀ ahead, test ahead = true ↔ ∃ found, accepted found ∧ found <+: ahead) :
    somewhere test text = true ↔ ∃ found, accepted found ∧ found <:+: text := by
  simp only [somewhere_iff, h, List.infix_iff_prefix_suffix]
  constructor
  · rintro ⟨ahead,hahead,found,hfound,hstarts⟩
    exact ⟨found,hfound,ahead,hstarts,hahead⟩
  · rintro ⟨found,hfound,ahead,hstarts,hahead⟩
    exact ⟨ahead,hahead,found,hfound,hstarts⟩

theorem occursIn_iff : occursIn needle text = true ↔ needle <:+: text := by
  have h := @somewhere_iff_contains text (fun ahead => (afterWord needle ahead).isSome) (· = needle)
    (by simp [afterWord_isSome_iff])
  simpa [occursIn] using h

theorem letterFollows_append_lineFeed (front back : List Char) :
    letterFollows (front ++ '\n' :: back) = letterFollows front := by
  induction front with
  | nil => rfl
  | cons c front ih => rw [List.cons_append, letterFollows, letterFollows, ih]

theorem lowerFrom_append_lineFeed (afterLetter : Bool) (front back : List Char) :
    lowerFrom afterLetter (front ++ '\n' :: back) =
      lowerFrom afterLetter front ++ '\n' :: lower back := by
  induction front generalizing afterLetter with
  | nil => rfl
  | cons c front ih =>
    rw [List.cons_append, lowerFrom, lowerFrom, ih, letterFollows_append_lineFeed, List.append_assoc]

theorem lower_append_lineFeed (front back : List Char) :
    lower (front ++ '\n' :: back) = lower front ++ '\n' :: lower back :=
  lowerFrom_append_lineFeed false front back

theorem containsAny_iff {text : String} : containsAny cues text = true ↔
    ∃ cue ∈ cues, lower cue.toList <:+: lower text.toList := by
  simp [containsAny, occursIn_iff]

/-- A text stands on lines of its own; when it ends in a line feed, this may be the one behind it. -/
def OnLines (text whole : List Char) : Prop := ∃ front body back,
  whole = front ++ '\n' :: (body ++ '\n' :: back) ∧ (text = body ∨ text = body ++ ['\n'])

theorem OnLines.isInfix (h : OnLines text whole) : text <:+: whole := by
  obtain ⟨front,body,back,rfl,rfl | rfl⟩ := h
  · exact ⟨front ++ ['\n'],'\n' :: back,by simp⟩
  · exact ⟨front ++ ['\n'],back,by simp⟩

theorem OnLines.lower (h : OnLines text whole) : OnLines (lower text) (lower whole) := by
  obtain ⟨front,body,back,rfl,htext⟩ := h
  refine ⟨Text.lower front,Text.lower body,Text.lower back,?_,htext.imp (congrArg _) ?_⟩
  · rw [lower_append_lineFeed, lower_append_lineFeed]
  · rintro rfl
    exact lower_append_lineFeed body []

theorem OnLines.containsAny {text whole : String} (h : OnLines text.toList whole.toList)
    (hcues : containsAny cues text = true) : containsAny cues whole = true := by
  obtain ⟨cue,hcue,hin⟩ := containsAny_iff.mp hcues
  exact containsAny_iff.mpr ⟨cue,hcue,hin.trans h.lower.isInfix⟩

end WebAtlas.Text
