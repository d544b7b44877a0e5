import Mathlib.Tactic.MkIffOfInductiveProp
import WebAtlas.Proofs.Schema.Blocks

/-! # Items of a body

The items that a body is written of, and what is read from each: a field from a field, whatever its
attributes hold, and nothing from a blank, a comment or an attribute of the whole block.
-/
namespace WebAtlas.Schema
open Text

/-- A part of the attributes of a field: text in double quotes, or text without braces. -/
inductive Segment
  | plain (text : List Char)
  | quoted (text : List Char)
deriving DecidableEq

def Segment.text : Segment → List Char
  | .plain text => text
  | .quoted text => '"' :: (text ++ ['"'])

/-- Opening braces stand in quotes only. -/
def Segment.Proper : Segment → Prop
  | .plain text => '{' ∉ text
  | .quoted _ => True

instance : DecidablePred Segment.Proper
  | .plain text => inferInstanceAs (Decidable ('{' ∉ text))
  | .quoted _ => inferInstanceAs (Decidable True)

/-- A field as written, its type with the marks of an optional field and of one that holds many. -/
structure FieldLine where
  indent : List Char
  name : List Char
  gap : List Char
  typeName : List Char
  isOptional : Bool
  isArray : Bool
  attributes : List Segment
deriving DecidableEq

namespace FieldLine

/-- The type without the mark of a field that holds many. -/
def elementText (l : FieldLine) : List Char := l.typeName ++ if l.isOptional then ['?'] else []

def typeText (l : FieldLine) : List Char := l.elementText ++ if l.isArray then ['[',']'] else []

def attributeText (l : FieldLine) : List Char := l.attributes.flatMap Segment.text

def text (l : FieldLine) : List Char :=
  l.indent ++ (l.name ++ (l.gap ++ (l.typeText ++ l.attributeText)))

/-- The field that a line declares, given the names of all entities. -/
def field (entityNames : List String) (l : FieldLine) : Field :=
  ⟨String.ofList l.name,String.ofList l.typeName,decide (String.ofList l.typeName ∈ entityNames),
    l.isOptional,l.isArray⟩

@[mk_iff]
structure WellFormed (l : FieldLine) : Prop where
  indent : Blank l.indent
  name : Token l.name ∧ '{' ∉ l.name ∧ l.name.head? ≠ some '@' ∧ ¬ ['/','/'] <+: l.name
  gap : l.gap ≠ [] ∧ Blank l.gap
  typeName : Token l.typeName ∧ '{' ∉ l.typeName ∧ ¬ ['?'] <:+ l.typeName ∧
    ¬ ['[',']'] <:+ l.typeName
  attributes : l.attributeText.head?.all isBlank = true ∧ ∀ s ∈ l.attributes, s.Proper

instance : DecidablePred FieldLine.WellFormed := fun l => decidable_of_iff' _ (wellFormed_iff l)

end FieldLine

inductive Item
  | blank (text : List Char)
  | comment (indent text : List Char)
  | blockAttribute (indent text : List Char)
  | field (line : FieldLine)
deriving DecidableEq

namespace Item

def text : Item → List Char
  | .blank text => text
  | .comment indent text => indent ++ '/' :: '/' :: text
  | .blockAttribute indent text => indent ++ '@' :: text
  | .field line => line.text

/-- The field that an item declares, if it is one. -/
def field? (entityNames : List String) : Item → Option Field
  | .field line => some (line.field entityNames)
  | .blank _ | .comment _ _ | .blockAttribute _ _ => none

/-- What an item consists of. Opening braces stand in comments and in quotes only. -/
def Proper : Item → Prop
  | .blank text => Blank text
  | .comment indent _ => Blank indent
  | .blockAttribute indent text => Blank indent ∧ '{' ∉ text
  | .field line => line.WellFormed

instance : DecidablePred Item.Proper
  | .blank text => inferInstanceAs (Decidable (Blank text))
  | .comment indent _ => inferInstanceAs (Decidable (Blank indent))
  | .blockAttribute indent text => inferInstanceAs (Decidable (Blank indent ∧ '{' ∉ text))
  | .field line => inferInstanceAs (Decidable line.WellFormed)

@[mk_iff]
structure WellFormed (i : Item) : Prop where
  inline : Inline i.text
  proper : i.Proper

instance : DecidablePred Item.WellFormed := fun i => decidable_of_iff' _ (wellFormed_iff i)

end Item

variable {names : List String} {line rest ending : List Char}

theorem withoutEnding?_eq_some_iff : withoutEnding? ending line = some rest ↔ line = rest ++ ending := by
  simp only [withoutEnding?, Option.map_eq_some_iff, afterWord_eq_some_iff]
  constructor
  · rintro ⟨back,h,rfl⟩
    rw [← List.reverse_reverse line, h, List.reverse_append, List.reverse_reverse]
  · rintro rfl
    exact ⟨rest.reverse,by simp,List.reverse_reverse rest⟩

theorem withoutEnding?_eq_none (h : ¬ ending <:+ line) : withoutEnding? ending line = none := by
  rw [Option.eq_none_iff_forall_ne_some]
  intro rest hrest
  exact h ⟨rest,(withoutEnding?_eq_some_iff.mp hrest).symm⟩

theorem field?_of_words (h : (words line).length ≤ 1) : field? names line = none := by
  unfold field?
  simp only
  split
  · rfl
  · rw [words_trimBlanks]
    split
    · rename_i hwords
      simp [hwords] at h
    · rfl

theorem field?_comment {indent text : List Char} (hindent : Blank indent) :
    field? names (indent ++ '/' :: '/' :: text) = none := by
  have hstart : ['/','/'] <+: trimBlanks (indent ++ (['/','/'] ++ text)) :=
    prefix_trimBlanks hindent (by decide) text
  unfold field?
  simp only
  rw [if_pos]
  rw [Bool.or_eq_true_iff]
  exact .inl (afterWord_isSome_iff.mpr hstart)

theorem field?_blockAttribute {indent text : List Char} (hindent : Blank indent) :
    field? names (indent ++ '@' :: text) = none := by
  have hwords : words (indent ++ '@' :: text) = words ('@' :: text) := words_blanks_append hindent
  obtain ⟨first,others,hcons,hfirst⟩ :=
    words_cons_of_prefix (w := ['@']) (by decide) (List.prefix_append ['@'] text)
  have hhead : first.head? = some '@' := by
    obtain ⟨tail,rfl⟩ := hfirst
    rfl
  unfold field?
  simp only
  split
  · rfl
  · rw [words_trimBlanks, hwords, ← List.singleton_append, hcons]
    cases others with
    | nil => rfl
    | cons second others => exact if_pos hhead

namespace FieldLine.WellFormed
variable {l : FieldLine}

theorem elementText_token (hl : l.WellFormed) : Token l.elementText := by
  refine ⟨by simp [elementText, hl.typeName.1.1],fun c hc => ?_⟩
  rcases List.mem_append.mp hc with hc | hc
  · exact hl.typeName.1.2 c hc
  · split at hc
    · rw [List.mem_singleton.mp hc]
      decide
    · cases hc

theorem typeText_token (hl : l.WellFormed) : Token l.typeText := by
  refine ⟨by simp [typeText, hl.elementText_token.1],fun c hc => ?_⟩
  rcases List.mem_append.mp hc with hc | hc
  · exact hl.elementText_token.2 c hc
  · split at hc
    · rcases List.mem_cons.mp hc with rfl | hc
      · decide
      · rw [List.mem_singleton.mp hc]
        decide
    · cases hc

theorem withoutArray (hl : l.WellFormed) : withoutEnding? ['[',']'] l.typeText =
    if l.isArray then some l.elementText else none := by
  unfold typeText
  split
  · exact withoutEnding?_eq_some_iff.mpr rfl
  · rw [List.append_nil]
    apply withoutEnding?_eq_none
    unfold elementText
    split
    · rintro ⟨front,h⟩
      have hlast := congrArg List.getLast? h
      simp at hlast
    · rw [List.append_nil]
      exact hl.typeName.2.2.2

theorem withoutOptional (hl : l.WellFormed) : withoutEnding? ['?'] l.elementText =
    if l.isOptional then some l.typeName else none := by
  unfold elementText
  split
  · exact withoutEnding?_eq_some_iff.mpr rfl
  · rw [List.append_nil]
    exact withoutEnding?_eq_none hl.typeName.2.2.1

theorem words_text (hl : l.WellFormed) :
    words l.text = l.name :: l.typeText :: words l.attributeText := by
  have hattributes : ∀ c ∈ l.attributeText.head?, isBlank c = true := by
    simpa [Option.all_eq_true] using hl.attributes.1
  rw [text, words_blanks_append hl.indent,
    words_append hl.name.1 (head?_blank_append hl.gap.1 hl.gap.2), words_blanks_append hl.gap.2,
    words_append hl.typeText_token hattributes]

/-- A field is read from its line, whatever its attributes are. -/
theorem field?_text (hl : l.WellFormed) (names : List String) :
    field? names l.text = some (l.field names) := by
  have hstart : ∀ w, Token w → w <+: trimBlanks l.text → w <+: l.name := by
    intro w hw h
    obtain ⟨first,others,hcons,hfirst⟩ := words_cons_of_prefix hw h
    rw [words_trimBlanks, hl.words_text] at hcons
    rwa [(List.cons.inj hcons).1]
  have hcomment : (afterWord ['/','/'] (trimBlanks l.text)).isSome = false := by
    rw [← Bool.not_eq_true, afterWord_isSome_iff]
    exact fun h => hl.name.2.2.2 (hstart _ (by decide) h)
  have hattribute : (afterWord ['@','@'] (trimBlanks l.text)).isSome = false := by
    rw [← Bool.not_eq_true, afterWord_isSome_iff]
    intro h
    obtain ⟨tail,htail⟩ := hstart _ (by decide) h
    exact hl.name.2.2.1 (by rw [← htail]; rfl)
  unfold Schema.field?
  simp only [hcomment, hattribute, Bool.or_false, Bool.false_eq_true, if_false, words_trimBlanks,
    hl.words_text, if_neg hl.name.2.2.1, hl.withoutArray]
  have helement : (if l.isArray = true then some l.elementText else none).getD l.typeText =
      l.elementText := by
    cases h : l.isArray <;> simp [typeText, h]
  have htype : (if l.isOptional = true then some l.typeName else none).getD l.elementText =
      l.typeName := by
    cases h : l.isOptional <;> simp [elementText, h]
  rw [helement, hl.withoutOptional, htype]
  cases ho : l.isOptional <;> cases ha : l.isArray <;> simp [field, ho, ha]

end FieldLine.WellFormed

/-- What is read from an item is the field that it declares. -/
theorem Item.WellFormed.field?_text {i : Item} (hi : i.WellFormed) (names : List String) :
    Schema.field? names i.text = i.field? names := by
  have hproper := hi.proper
  cases i with
  | blank text => exact field?_of_words (by rw [Item.text, words_blanks hproper]; exact Nat.zero_le 1)
  | comment indent text => exact field?_comment hproper
  | blockAttribute indent text => exact field?_blockAttribute hproper.1
  | field line => exact FieldLine.WellFormed.field?_text hproper names

end WebAtlas.Schema
