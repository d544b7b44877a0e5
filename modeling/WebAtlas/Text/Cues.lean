import WebAtlas.Text.Lowercase
import WebAtlas.Text.Scan

/-! # Cues

Words whose presence in a text, in any case, is taken as a sign.
-/
namespace WebAtlas.Text

/-- Whether the lowercased text holds one of the lowercased cues. -/
def containsAny (cues : List String) (text : String) : Bool :=
  let text := lower text.toList
  cues.any fun cue => occursIn (lower cue.toList) text

end WebAtlas.Text
