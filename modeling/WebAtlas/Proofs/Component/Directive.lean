import WebAtlas.Component.Directive
import WebAtlas.Proofs.Text.Scan

/-! # Directives and lines

A directive never spans two lines: neither its quotes nor its words are line ends, and the blanks
after it need not be read beyond the first one. So each line is searched by itself.
-/
namespace WebAtlas
open Text

section Readers
variable {accepts : Char → Bool} {word : List Char} (front back : List Char)

theorem Text.afterChar_append_lineFeed (h : accepts '\n' = false) :
    afterChar accepts (front ++ '\n' :: back) = (afterChar accepts front).map (· ++ '\n' :: back) := by
  cases front with
  | nil => simp [afterChar, h]
  | cons c front => by_cases hc : accepts c = true <;> simp [afterChar, hc]

theorem Text.afterWord_append_lineFeed (h : '\n' ∉ word) :
    afterWord word (front ++ '\n' :: back) = (afterWord word front).map (· ++ '\n' :: back) := by
  induction word generalizing front with
  | nil => rfl
  | cons w word ih =>
    obtain ⟨hw,hword⟩ := not_or.mp (List.mem_cons.not.mp h)
    cases front with
    | nil => simp [afterWord, Ne.symm hw]
    | cons c front =>
      rw [List.cons_append, afterWord, afterWord, ih front hword]
      split <;> rfl

end Readers

namespace ExecutionContext
variable (front back : List Char)

theorem blankToLineEnd_append_lineFeed :
    blankToLineEnd (front ++ '\n' :: back) = blankToLineEnd front := by
  induction front with
  | nil => rfl
  | cons c front ih => rw [List.cons_append, blankToLineEnd, blankToLineEnd, ih]

theorem directiveStarts_append_lineFeed :
    directiveStarts (front ++ '\n' :: back) = directiveStarts front := by
  have hsemicolon : ∀ front, blankToLineEnd
      ((afterWord [';'] (front ++ '\n' :: back)).getD (front ++ '\n' :: back)) =
      blankToLineEnd ((afterWord [';'] front).getD front) := by
    intro front
    rw [afterWord_append_lineFeed _ _ (by decide)]
    cases afterWord [';'] front <;> exact blankToLineEnd_append_lineFeed _ back
  simp only [directiveStarts, bind]
  rw [afterChar_append_lineFeed _ _ (by decide)]
  cases afterChar isQuote front with
  | none => rfl
  | some rest =>
    simp only [Option.map_some, Option.bind_some]
    rw [afterWord_append_lineFeed _ _ (by decide)]
    cases afterWord "use client".toList rest with
    | none => rfl
    | some rest =>
      simp only [Option.map_some, Option.bind_some]
      rw [afterChar_append_lineFeed _ _ (by decide), Option.any_map]
      cases afterChar isQuote rest with
      | none => rfl
      | some rest => exact hsemicolon rest

theorem hasDirective_append_lineFeed (lineStarts : Bool) :
    hasDirective lineStarts (front ++ '\n' :: back) =
      (hasDirective lineStarts front || hasDirective true back) := by
  induction front generalizing lineStarts with
  | nil => simp [hasDirective, directiveStarts, afterChar, isQuote]
  | cons c front ih =>
    rw [List.cons_append, hasDirective, hasDirective, ih, Bool.or_assoc, ← List.cons_append,
      directiveStarts_append_lineFeed]

end ExecutionContext
end WebAtlas
