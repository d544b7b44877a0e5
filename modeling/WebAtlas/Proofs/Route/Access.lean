import WebAtlas.Proofs.Text.Lowercase
import WebAtlas.Route.Access

/-! # Cues of an access tier

A handler's text shows a cue when it contains the cue in any case of the ASCII letters. The cues are
looked for in the lowercased text, but they are such that no character from outside ASCII makes one up,
hides one or splits one, whatever it becomes in lowercase.
-/
namespace WebAtlas.AccessTier
open Text
variable {cues : List String} {text : String}

/-- The text contains one of the cues up to the case of ASCII letters. -/
def Shows (cues : List String) (text : String) : Prop :=
  ∃ cue ∈ cues, ∃ found, found <:+: text.toList ∧ CaseVariant found cue.toList

theorem containsAny_iff_shows (h : ∀ cue ∈ cues, Distinct (cue.toList.map Char.toLower)) :
    containsAny cues text = true ↔ Shows cues text := by
  rw [containsAny_iff]
  constructor
  · rintro ⟨cue,hcue,hin⟩
    exact ⟨cue,hcue,(infix_lower_iff (h cue hcue)).mp hin⟩
  · rintro ⟨cue,hcue,hfound⟩
    exact ⟨cue,hcue,(infix_lower_iff (h cue hcue)).mpr hfound⟩

theorem adminCues_distinct : ∀ cue ∈ adminCues, Distinct (cue.toList.map Char.toLower) := by decide

theorem signedInCues_distinct : ∀ cue ∈ signedInCues, Distinct (cue.toList.map Char.toLower) := by
  decide

/-- The tier of a text is that of the highest cue that it shows, and a text without any is open to
anyone. -/
theorem infer_shows (text : String) :
    (infer text = .admin ↔ Shows adminCues text) ∧
    (infer text = .signedIn ↔ ¬ Shows adminCues text ∧ Shows signedInCues text) ∧
    (infer text = .anyone ↔ ¬ Shows adminCues text ∧ ¬ Shows signedInCues text) := by
  have hadmin := @containsAny_iff_shows adminCues text adminCues_distinct
  have hsignedIn := @containsAny_iff_shows signedInCues text signedInCues_distinct
  rw [← hadmin, ← hsignedIn, infer]
  cases containsAny adminCues text <;> cases containsAny signedInCues text <;> decide

/-- Letters that only look like those of a cue, and a letter that becomes two, show nothing. -/
example : infer "role === 'adm\u0130n' is\u212Admin AUTH\u03A3PROTECT" = .anyone ∧
    infer "\u03A3isADMIN\u0130" = .admin ∧ infer "\u0130UNAuthorized\u03A3" = .signedIn := by
  decide +kernel

end WebAtlas.AccessTier
