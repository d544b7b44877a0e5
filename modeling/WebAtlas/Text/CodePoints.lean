/-! # Strings that need not be texts

A string as its code points. It is a text when none of them is a surrogate; a document can spell one
that is no text, as it may escape a surrogate that stands alone.
-/
namespace WebAtlas

structure CodePoints where
  points : List Nat
deriving DecidableEq, Repr

namespace CodePoints

def ofText (text : String) : CodePoints := ⟨text.toList.map Char.toNat⟩

instance : Coe String CodePoints := ⟨ofText⟩

/-- The text with these code points, if there is one. -/
def text? (s : CodePoints) : Option String :=
  if s.points.all fun point => decide point.isValidChar then
    some (String.ofList (s.points.map Char.ofNat))
  else none

end CodePoints

end WebAtlas
