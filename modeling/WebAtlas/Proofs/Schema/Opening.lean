import Mathlib.Tactic.MkIffOfInductiveProp
import WebAtlas.Schema.Declaration
import WebAtlas.Proofs.Text.Scan

/-! # Openings of declarations

The opening of a declaration is read exactly where it is written: an indent, a keyword, a name and an
opening brace. Since two words stand before that brace, no text is read in two ways.
-/
namespace WebAtlas.Schema
open Text
variable {keywords : List String} {ahead rest name body before : List Char}

/-- Keywords that consist of word characters. -/
@[mk_iff]
structure WordKeywords (keywords : List String) : Prop where
  exist : keywords ≠ []
  words : ∀ k ∈ keywords, Word k.toList

instance : DecidablePred WordKeywords := fun keywords => decidable_of_iff' _ (wordKeywords_iff keywords)

/-- Without braces and semicolons. -/
def Plain (text : List Char) : Prop := ∀ c ∈ text, c ≠ '{' ∧ c ≠ '}' ∧ c ≠ ';'

instance : DecidablePred Plain := fun text => List.decidableBAll _ text

/-- The opening of a block as written: its first word, its name and the blanks behind each. -/
structure Opening where
  keyword : List Char
  gap : List Char
  name : List Char
  space : List Char

namespace Opening

def text (o : Opening) : List Char := o.keyword ++ (o.gap ++ (o.name ++ o.space))

@[mk_iff]
structure WellFormed (o : Opening) : Prop where
  keyword : Token o.keyword
  plain : Plain o.keyword
  gap : o.gap ≠ [] ∧ Blank o.gap
  name : Word o.name
  space : Blank o.space

instance : DecidablePred Opening.WellFormed := fun o => decidable_of_iff' _ (wellFormed_iff o)

/-- Whether a block with this opening is an entity. -/
def isEntity (keywords : List String) (o : Opening) : Bool :=
  keywords.contains (String.ofList o.keyword)

end Opening

theorem Plain.append (hf : Plain before) (hb : Plain ahead) : Plain (before ++ ahead) :=
  List.forall_mem_append.mpr ⟨hf,hb⟩

theorem Plain.open_not_mem (h : Plain ahead) : '{' ∉ ahead := fun hc => (h _ hc).1 rfl

theorem plain_of_word (h : Word name) : Plain name := by
  intro c hc
  have hword := h.2 c hc
  refine ⟨?_,?_,?_⟩
  all_goals
    rintro rfl
    revert hword
    decide

theorem plain_of_blank (h : Blank ahead) : Plain ahead := by
  intro c hc
  have hblank := h c hc
  refine ⟨?_,?_,?_⟩
  all_goals
    rintro rfl
    revert hblank
    decide

namespace Opening.WellFormed
variable {o : Opening}

theorem plain_text (ho : o.WellFormed) : Plain o.text :=
  ho.plain.append ((plain_of_blank ho.gap.2).append ((plain_of_word ho.name).append
    (plain_of_blank ho.space)))

theorem words_name (ho : o.WellFormed) : words (o.gap ++ (o.name ++ o.space)) = [o.name] := by
  rw [words_blanks_append ho.gap.2, words_append_blanks ho.space,
    words_token ho.name.token]

theorem words_text (ho : o.WellFormed) : words o.text = [o.keyword,o.name] := by
  rw [text, words_append ho.keyword (head?_blank_append ho.gap.1 ho.gap.2), ho.words_name]

end Opening.WellFormed

theorem mem_keywordTexts (hk : WordKeywords keywords) {keyword : List Char} :
    keyword ∈ keywordTexts keywords ↔ String.ofList keyword ∈ keywords := by
  have hne : keywords.isEmpty = false := by simpa using hk.exist
  simp only [keywordTexts, hne, Bool.false_eq_true, if_false, List.mem_map]
  constructor
  · rintro ⟨k,hmem,rfl⟩
    rwa [String.ofList_toList]
  · intro h
    exact ⟨_,h,String.toList_ofList⟩

theorem isEntity_iff (hk : WordKeywords keywords) {o : Opening} :
    o.isEntity keywords = true ↔ o.keyword ∈ keywordTexts keywords := by
  rw [mem_keywordTexts hk, Opening.isEntity, List.contains_iff_mem]

theorem word_of_mem (hk : WordKeywords keywords) {keyword : List Char}
    (h : keyword ∈ keywordTexts keywords) : Word keyword := by
  have hwords := hk.words _ ((mem_keywordTexts hk).mp h)
  rwa [String.toList_ofList] at hwords

theorem headerWith_eq_some_iff {keyword : List Char} : headerWith keyword ahead = some (name,rest) ↔
    ∃ gap space, gap ≠ [] ∧ Blank gap ∧ Word name ∧ Blank space ∧
      ahead = keyword ++ (gap ++ (name ++ (space ++ '{' :: rest))) := by
  have hbrace : ∀ c ∈ ('{' :: rest).head?, isBlank c = false ∧ isWordChar c = false := by
    intro c hc
    cases hc
    decide
  simp only [headerWith, bind, Option.bind_eq_some_iff, afterWord_eq_some_iff, afterBlanks_eq_some_iff]
  constructor
  · rintro ⟨_,rfl,_,⟨gap,hne,hgap,rfl,-⟩,⟨found,behind⟩,hrun,tail,hskip,heq⟩
    cases heq
    obtain ⟨hname,hword,rfl,-⟩ := run_eq_some_iff.mp hrun
    obtain ⟨space,hspace,hbehind⟩ := skipBlanks_split behind
    rw [hskip] at hbehind
    exact ⟨gap,space,hne,hgap,⟨hname,hword⟩,hspace,by rw [hbehind]; rfl⟩
  · rintro ⟨gap,space,hne,hgap,hname,hspace,rfl⟩
    have hstop : ∀ c ∈ (space ++ '{' :: rest).head?, isWordChar c = false := by
      intro c hc
      cases space with
      | nil => exact (hbrace c hc).2
      | cons d space =>
        obtain rfl := Option.some_inj.mp hc
        have hblank := hspace d List.mem_cons_self
        by_contra hwordChar
        rw [isBlank_of_isWordChar (by simpa using hwordChar)] at hblank
        cases hblank
    refine ⟨_,rfl,_,⟨gap,hne,hgap,rfl,hname.token.head?⟩,_,
      run_eq_some_iff.mpr ⟨hname.1,hname.2,rfl,hstop⟩,rest,?_,rfl⟩
    exact skipBlanks_eq hspace fun c hc => (hbrace c hc).1

theorem headerWith_opening {o : Opening} (ho : o.WellFormed) (ahead : List Char) :
    headerWith o.keyword (o.text ++ '{' :: ahead) = some (o.name,ahead) :=
  headerWith_eq_some_iff.mpr ⟨o.gap,o.space,ho.gap.1,ho.gap.2,ho.name,ho.space,by simp [Opening.text]⟩

theorem opening_of_headerWith (hk : WordKeywords keywords) {keyword : List Char}
    (hmem : keyword ∈ keywordTexts keywords) (h : headerWith keyword ahead = some (name,rest)) :
    ∃ o, Opening.WellFormed o ∧ o.keyword = keyword ∧ o.name = name ∧ ahead = o.text ++ '{' :: rest := by
  obtain ⟨gap,space,hne,hgap,hname,hspace,rfl⟩ := headerWith_eq_some_iff.mp h
  have hkeyword := word_of_mem hk hmem
  refine ⟨⟨keyword,gap,name,space⟩,?_,rfl,rfl,by simp [Opening.text]⟩
  exact ⟨hkeyword.token,plain_of_word hkeyword,⟨hne,hgap⟩,hname,hspace⟩

/-- Spaces and tabs. -/
def Indent (indent : List Char) : Prop := ∀ c ∈ indent, c = ' ' ∨ c = '\t'

theorem Indent.blank {indent : List Char} (h : Indent indent) : Blank indent := by
  intro c hc
  rcases h c hc with rfl | rfl <;> decide

section Indented
variable {α : Type} {read : List Char → List Char → Option α} {choices : List (List Char)} {found : α}

/-- What is read after an indent is read with one of the choices behind some spaces and tabs. -/
theorem afterIndent_eq_some
    (h : afterIndent (fun ahead => choices.findSome? (read · ahead)) ahead = some found) :
    ∃ indent rest, Indent indent ∧ ahead = indent ++ rest ∧
      ∃ choice ∈ choices, read choice rest = some found := by
  have hhere : ∀ ahead, choices.findSome? (read · ahead) = some found → ∃ indent rest, Indent indent ∧
      ahead = indent ++ rest ∧ ∃ choice ∈ choices, read choice rest = some found := fun ahead h =>
    ⟨[],ahead,by simp [Indent],rfl,List.exists_of_findSome?_eq_some h⟩
  induction ahead with
  | nil => exact hhere [] h
  | cons c ahead ih =>
    rw [afterIndent] at h
    split at h
    · rename_i hc
      rcases Option.or_eq_some_iff.mp h with h | ⟨-,h⟩
      · obtain ⟨indent,rest,hindent,rfl,hread⟩ := ih h
        exact ⟨c :: indent,rest,List.forall_mem_cons.mpr ⟨by simpa using hc,hindent⟩,rfl,hread⟩
      · exact hhere _ h
    · exact hhere _ h

theorem afterIndent_isSome {indent choice : List Char} (hindent : Indent indent)
    (hc : choice ∈ choices) (h : (read choice ahead).isSome = true) :
    (afterIndent (fun ahead => choices.findSome? (read · ahead)) (indent ++ ahead)).isSome = true := by
  have hhere : (choices.findSome? (read · ahead)).isSome = true :=
    List.findSome?_isSome_iff.mpr ⟨choice,hc,h⟩
  induction indent with
  | nil =>
    cases ahead with
    | nil => exact hhere
    | cons c ahead =>
      rw [List.nil_append, afterIndent]
      split
      · simp [hhere]
      · exact hhere
  | cons c indent ih =>
    obtain ⟨hblank,hindent⟩ := List.forall_mem_cons.mp hindent
    rw [List.cons_append, afterIndent, if_pos (by simpa using hblank)]
    simp [ih hindent]

end Indented

/-- Without braces. -/
def Unbraced (text : List Char) : Prop := '{' ∉ text ∧ '}' ∉ text

instance : DecidablePred Unbraced := fun _ => inferInstanceAs (Decidable (_ ∧ _))

theorem Plain.unbraced (h : Plain ahead) : Unbraced ahead :=
  ⟨h.open_not_mem,fun hc => (h _ hc).2.1 rfl⟩

theorem Unbraced.append (hf : Unbraced before) (hb : Unbraced ahead) : Unbraced (before ++ ahead) := by
  simp [Unbraced, hf.1, hf.2, hb.1, hb.2]

/-- Keywords without braces. -/
def Braceless (keywords : List String) : Prop := ∀ k ∈ keywords, Unbraced k.toList

instance : DecidablePred Braceless := fun keywords => List.decidableBAll _ keywords

theorem WordKeywords.braceless (hk : WordKeywords keywords) : Braceless keywords := fun k hmem =>
  (plain_of_word (hk.words k hmem)).unbraced

theorem Braceless.unbraced (hb : Braceless keywords) {keyword : List Char}
    (h : keyword ∈ keywordTexts keywords) : Unbraced keyword := by
  unfold keywordTexts at h
  split at h
  · rw [List.mem_singleton.mp h]
    exact ⟨List.not_mem_nil,List.not_mem_nil⟩
  · obtain ⟨k,hmem,rfl⟩ := List.mem_map.mp h
    exact hb k hmem

/-- A text whose last word, behind a blank, is a name. -/
inductive Announces (name : List Char) : List Char → Prop
  | last {front gap space : List Char} (hgap : Gap gap) (hname : Word name) (hspace : Blank space) :
    Announces name (front ++ (gap ++ (name ++ space)))

theorem Announces.append (h : Announces name before) (front : List Char) :
    Announces name (front ++ before) := by
  cases h with
  | last hgap hname hspace =>
    rw [← List.append_assoc]
    exact .last hgap hname hspace

/-- Read from its end, the text shows the name. -/
theorem Announces.name_eq (h : Announces name before) :
    ((before.reverse.dropWhile isBlank).takeWhile isWordChar).reverse = name := by
  cases h with
  | @last front gap space hgap hname hspace =>
    have hword : Word name.reverse := ⟨by simpa using hname.1,fun c hc => hname.2 c (by simpa using hc)⟩
    have hstop : ∀ c ∈ (gap.reverse ++ front.reverse).head?, isWordChar c = false := by
      intro c hc
      have hblank := head?_blank_append (by simpa using hgap.1)
        (fun d hd => hgap.2 d (List.mem_reverse.mp hd)) c hc
      by_contra hc
      rw [isBlank_of_isWordChar (by simpa using hc)] at hblank
      cases hblank
    simp only [List.reverse_append, List.append_assoc]
    rw [dropWhile_append (fun c hc => hspace c (List.mem_reverse.mp hc)) hword.token.head?,
      takeWhile_append hword.2 hstop, List.reverse_reverse]

theorem announces_of_headerWith {keyword : List Char} (hk : Unbraced keyword)
    (h : headerWith keyword ahead = some (name,rest)) :
    ∃ before, Announces name before ∧ Unbraced before ∧ ahead = before ++ '{' :: rest := by
  obtain ⟨gap,space,hne,hgap,hname,hspace,rfl⟩ := headerWith_eq_some_iff.mp h
  have hplain : Plain (gap ++ (name ++ space)) :=
    (plain_of_blank hgap).append ((plain_of_word hname).append (plain_of_blank hspace))
  exact ⟨keyword ++ (gap ++ (name ++ space)),.last ⟨hne,hgap⟩ hname hspace,hk.append hplain.unbraced,
    by simp⟩

/-- A header is read up to the first opening brace, and the word before it is the name. -/
theorem announces_of_header (hb : Braceless keywords) (h : header keywords ahead = some (name,rest)) :
    ∃ before, Announces name before ∧ Unbraced before ∧ ahead = before ++ '{' :: rest := by
  obtain ⟨indent,behind,hindent,rfl,keyword,hmem,hread⟩ := afterIndent_eq_some h
  obtain ⟨before,hannounces,hbefore,rfl⟩ := announces_of_headerWith (hb.unbraced hmem) hread
  exact ⟨indent ++ before,hannounces.append indent,(plain_of_blank hindent.blank).unbraced.append hbefore,
    (List.append_assoc ..).symm⟩

/-- What is read with one keyword and one indent is the header, whichever of them are tried first. -/
theorem header_of_headerWith (hb : Braceless keywords) {indent keyword : List Char}
    (hindent : Indent indent) (hmem : keyword ∈ keywordTexts keywords)
    (h : headerWith keyword ahead = some (name,rest)) :
    header keywords (indent ++ ahead) = some (name,rest) := by
  have hsome : (header keywords (indent ++ ahead)).isSome = true :=
    afterIndent_isSome hindent hmem (Option.isSome_of_eq_some h)
  obtain ⟨⟨found,behind⟩,hheader⟩ := Option.isSome_iff_exists.mp hsome
  obtain ⟨before,hannounces,hbefore,rfl⟩ := announces_of_headerWith (hb.unbraced hmem) h
  obtain ⟨before',hannounces',hbefore',hsplit⟩ := announces_of_header hb hheader
  have hindented := (plain_of_blank hindent.blank).unbraced.append hbefore
  rw [← List.append_assoc] at hsplit
  obtain ⟨rfl,rfl⟩ := split_at_first hindented.1 hbefore'.1 hsplit
  rw [hheader, ← hannounces'.name_eq, (hannounces.append indent).name_eq]

/-- A header is an opening behind an indent. -/
theorem header_eq_some (hk : WordKeywords keywords) (h : header keywords ahead = some (name,rest)) :
    ∃ indent o, Indent indent ∧ Opening.WellFormed o ∧ o.keyword ∈ keywordTexts keywords ∧
      o.name = name ∧ ahead = indent ++ o.text ++ '{' :: rest := by
  obtain ⟨indent,behind,hindent,rfl,keyword,hmem,hread⟩ := afterIndent_eq_some h
  obtain ⟨o,ho,rfl,rfl,rfl⟩ := opening_of_headerWith hk hmem hread
  exact ⟨indent,o,hindent,ho,hmem,rfl,(List.append_assoc ..).symm⟩

theorem brace_not_mem {indent : List Char} (hindent : Indent indent) {o : Opening}
    (ho : o.WellFormed) : '{' ∉ indent ++ o.text :=
  ((plain_of_blank hindent.blank).append ho.plain_text).open_not_mem

/-- The two words before the first opening brace are the keyword and the name. -/
theorem words_of_header (hk : WordKeywords keywords) (hbefore : '{' ∉ before)
    (h : header keywords (before ++ '{' :: ahead) = some (name,rest)) :
    rest = ahead ∧ ∃ indent o, Indent indent ∧ Opening.WellFormed o ∧
      o.keyword ∈ keywordTexts keywords ∧ before = indent ++ o.text ∧
      words before = [o.keyword,name] := by
  obtain ⟨indent,o,hindent,ho,hmem,rfl,heq⟩ := header_eq_some hk h
  obtain ⟨rfl,rfl⟩ := split_at_first hbefore (brace_not_mem hindent ho) heq
  exact ⟨rfl,indent,o,hindent,ho,hmem,rfl,by rw [words_blanks_append hindent.blank, ho.words_text]⟩

theorem header_of_opening (hk : WordKeywords keywords) {indent : List Char} (hindent : Indent indent)
    {o : Opening} (ho : o.WellFormed) (hmem : o.keyword ∈ keywordTexts keywords) (ahead : List Char) :
    header keywords (indent ++ o.text ++ '{' :: ahead) = some (o.name,ahead) := by
  rw [List.append_assoc]
  exact header_of_headerWith hk.braceless hindent hmem (headerWith_opening ho ahead)

/-- An opening is read as a header when its first word is a keyword, and not at all otherwise. -/
theorem header_opening (hk : WordKeywords keywords) {o : Opening} (ho : o.WellFormed)
    (ahead : List Char) : header keywords (o.text ++ '{' :: ahead) =
      if o.isEntity keywords = true then some (o.name,ahead) else none := by
  split
  · rename_i hentity
    have hindent : Indent [] := by simp [Indent]
    exact header_of_opening hk hindent ho ((isEntity_iff hk).mp hentity) ahead
  · rename_i hforeign
    rw [Option.eq_none_iff_forall_ne_some]
    rintro ⟨name,rest⟩ h
    obtain ⟨-,_,o',-,-,hmem,-,hwords⟩ := words_of_header hk ho.plain_text.open_not_mem h
    rw [ho.words_text] at hwords
    simp only [List.cons.injEq, and_true] at hwords
    rw [← hwords.1] at hmem
    exact hforeign ((isEntity_iff hk).mpr hmem)

theorem header_eq_none_of_not_mem (hk : WordKeywords keywords) (h : '{' ∉ ahead) :
    header keywords ahead = none := by
  rw [Option.eq_none_iff_forall_ne_some]
  rintro ⟨name,rest⟩ hheader
  obtain ⟨indent,o,-,-,-,-,rfl⟩ := header_eq_some hk hheader
  simp at h

/-- No header reaches a brace behind fewer than two words. -/
theorem header_eq_none_of_words (hk : WordKeywords keywords) (hbefore : '{' ∉ before)
    (h : (words before).length ≤ 1) (ahead : List Char) :
    header keywords (before ++ '{' :: ahead) = none := by
  rw [Option.eq_none_iff_forall_ne_some]
  rintro ⟨name,rest⟩ hheader
  obtain ⟨-,_,_,_,_,_,_,hwords⟩ := words_of_header hk hbefore hheader
  simp [hwords] at h

/-- No header reaches a brace behind a character that is neither blank nor part of a word. -/
theorem header_eq_none_of_mem (hk : WordKeywords keywords) (hbefore : '{' ∉ before) {c : Char}
    (hc : c ∈ before) (hblank : isBlank c = false) (hword : isWordChar c = false) (ahead : List Char) :
    header keywords (before ++ '{' :: ahead) = none := by
  rw [Option.eq_none_iff_forall_ne_some]
  rintro ⟨name,rest⟩ hheader
  obtain ⟨-,indent,o,hindent,ho,hmem,rfl,-⟩ := words_of_header hk hbefore hheader
  have hkeyword := (word_of_mem hk hmem).2
  simp only [Opening.text, List.mem_append] at hc
  rcases hc with hc | hc | hc | hc | hc
  · simp [hindent.blank c hc] at hblank
  · simp [hkeyword c hc] at hword
  · simp [ho.gap.2 c hc] at hblank
  · simp [ho.name.2 c hc] at hword
  · simp [ho.space c hc] at hblank

theorem header_eq_none_of_closing (hk : WordKeywords keywords) (hbefore : '{' ∉ before)
    (ahead : List Char) : header keywords (before ++ '}' :: ahead) = none := by
  by_cases hopen : '{' ∈ ahead
  · obtain ⟨front,back,rfl,hfront⟩ := List.eq_append_cons_of_mem hopen
    have hnot : '{' ∉ before ++ '}' :: front := by simp [hbefore, hfront]
    have h := header_eq_none_of_mem hk hnot (c := '}') (by simp) (by decide) (by decide) back
    rwa [List.append_assoc, List.cons_append] at h
  · exact header_eq_none_of_not_mem hk (by simp [hbefore, hopen])

/-- A declaration with one keyword, with its body. -/
def blockWith (keyword ahead : List Char) : Option ((List Char × List Char) × List Char) := do
  let (name, ahead) ← headerWith keyword ahead
  let rest ← afterWord ['}'] (ahead.dropWhile (· ≠ '}'))
  return ((name, ahead.takeWhile (· ≠ '}')), rest)

theorem block_eq (keywords : List String) : block keywords = afterIndent fun ahead =>
    (keywordTexts keywords).findSome? (blockWith · ahead) := rfl

theorem blockWith_eq_some_iff {keyword : List Char} :
    blockWith keyword ahead = some ((name,body),rest) ↔
      headerWith keyword ahead = some (name,body ++ '}' :: rest) ∧ '}' ∉ body := by
  simp only [blockWith, bind, Option.bind_eq_some_iff, afterWord_eq_some_iff]
  constructor
  · rintro ⟨⟨name,behind⟩,hheader,rest,hclose,heq⟩
    cases heq
    have hsplit := @List.takeWhile_append_dropWhile _ (· ≠ '}') behind
    rw [hclose] at hsplit
    exact ⟨by rw [hheader]; exact congrArg (fun b => some (name,b)) hsplit.symm,
      fun hc => by simpa using List.mem_takeWhile_imp hc⟩
  · rintro ⟨hheader,hbody⟩
    have hopen : ∀ c ∈ body, decide (c ≠ '}') = true := fun c hc =>
      decide_eq_true (ne_of_mem_of_not_mem hc hbody)
    have hclose : ∀ c ∈ ('}' :: rest).head?, decide (c ≠ '}') = false := by
      intro c hc
      cases hc
      decide
    exact ⟨_,hheader,rest,dropWhile_append hopen hclose,by rw [takeWhile_append hopen hclose]; rfl⟩

/-- Where a block is read a header is, and the block goes on to the next closing brace. -/
theorem header_of_block (hb : Braceless keywords)
    (h : block keywords ahead = some ((name,body),rest)) :
    header keywords ahead = some (name,body ++ '}' :: rest) ∧ '}' ∉ body := by
  rw [block_eq] at h
  obtain ⟨indent,behind,hindent,rfl,keyword,hmem,hread⟩ := afterIndent_eq_some h
  obtain ⟨hheader,hbody⟩ := blockWith_eq_some_iff.mp hread
  exact ⟨header_of_headerWith hb hindent hmem hheader,hbody⟩

/-- Where a header is read a block is, as long as a closing brace follows. -/
theorem block_of_header (hb : Braceless keywords)
    (h : header keywords ahead = some (name,body ++ '}' :: rest)) (hbody : '}' ∉ body) :
    block keywords ahead = some ((name,body),rest) := by
  obtain ⟨indent,behind,hindent,rfl,keyword,hmem,hread⟩ := afterIndent_eq_some h
  have hsome : (block keywords (indent ++ behind)).isSome = true := by
    rw [block_eq]
    exact afterIndent_isSome hindent hmem
      (Option.isSome_of_eq_some (blockWith_eq_some_iff.mpr ⟨hread,hbody⟩))
  obtain ⟨⟨⟨name',body'⟩,rest'⟩,hblock⟩ := Option.isSome_iff_exists.mp hsome
  obtain ⟨hheader,hbody'⟩ := header_of_block hb hblock
  obtain ⟨rfl,hsplit⟩ := Prod.mk.inj (Option.some.inj (h.symm.trans hheader))
  obtain ⟨rfl,rfl⟩ := split_at_first hbody hbody' hsplit
  exact hblock

theorem block_eq_none (hk : WordKeywords keywords) (h : header keywords ahead = none) :
    block keywords ahead = none := by
  rw [Option.eq_none_iff_forall_ne_some]
  rintro ⟨⟨name,body⟩,rest⟩ hblock
  rw [(header_of_block hk.braceless hblock).1] at h
  cases h

theorem block_of_opening (hk : WordKeywords keywords) {o : Opening} (ho : o.WellFormed)
    (hentity : o.isEntity keywords = true) (hbody : '}' ∉ body) (ahead : List Char) :
    block keywords (o.text ++ '{' :: (body ++ '}' :: ahead)) = some ((o.name,body),ahead) := by
  refine block_of_header hk.braceless ?_ hbody
  rw [header_opening hk ho, if_pos hentity]

end WebAtlas.Schema
