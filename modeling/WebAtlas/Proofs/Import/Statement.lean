import WebAtlas.Import.Statement
import WebAtlas.Proofs.Text.Scan

/-! # Import statements as they are written

The forms of an import statement, each written with any blanks that its words allow. Where statements
stand between other text that does not hold the word `import`, their specifiers are found in the order of
the text, and nothing else is. A name may be `type` or `from` like any other.
-/
namespace WebAtlas.Import
open Text

def Name (text : List Char) : Prop := text ≠ [] ∧ ∀ c ∈ text, isNameChar c = true

instance : DecidablePred Name := fun text =>
  have := List.decidableBAll (isNameChar · = true) text
  inferInstanceAs (Decidable (text ≠ [] ∧ _))

/-- Names in braces, or a star with the name that it is given. -/
inductive Group
  | braces (inside : List Char) (closed : '\x7d' ∉ inside)
  | star (gap gap' name : List Char) (hgap : Gap gap) (hgap' : Gap gap') (hname : Name name)

def Group.text : Group → List Char
  | braces inside _ => '\x7b' :: (inside ++ ['\x7d'])
  | star gap gap' name .. => '*' :: (gap ++ ("as".toList ++ (gap' ++ name)))

/-- What a statement binds. -/
inductive Binding
  | group (g : Group)
  | single (name : List Char) (hname : Name name)
  | both (name space space' : List Char) (g : Group) (hname : Name name) (hspace : Blank space)
    (hspace' : Blank space')

def Binding.text : Binding → List Char
  | group g => g.text
  | single name _ => name
  | both name space space' g .. => name ++ (space ++ ',' :: (space' ++ g.text))

/-- A specifier in quotes, which need not agree. -/
structure Specifier where
  opening : Char
  target : List Char
  closing : Char
  opens : isQuote opening = true
  closes : isQuote closing = true
  ne_nil : target ≠ []
  unquoted : ∀ c ∈ target, isQuote c = false

def Specifier.text (s : Specifier) : List Char := s.opening :: (s.target ++ [s.closing])

/-- A specifier, alone or behind what is bound from it. -/
inductive Clause
  | bare (s : Specifier)
  | bound (b : Binding) (gap gap' : List Char) (s : Specifier) (hgap : Gap gap) (hgap' : Gap gap')

namespace Clause

def text : Clause → List Char
  | bare s => s.text
  | bound b gap gap' s .. => b.text ++ (gap ++ ("from".toList ++ (gap' ++ s.text)))

def target : Clause → List Char
  | bare s => s.target
  | bound _ _ _ s .. => s.target

end Clause

inductive Statement
  | plain (gap : List Char) (c : Clause) (hgap : Gap gap)
  | type (gap gap' : List Char) (c : Clause) (hgap : Gap gap) (hgap' : Gap gap')

namespace Statement

/-- What stands behind `import`. -/
def body : Statement → List Char
  | plain gap c _ => gap ++ c.text
  | type gap gap' c .. => gap ++ ("type".toList ++ (gap' ++ c.text))

def text (s : Statement) : List Char := "import".toList ++ s.body

def target : Statement → List Char
  | plain _ c _ => c.target
  | type _ _ c .. => c.target

end Statement

/-- Text that does not hold the word `import`. -/
structure Chunk where
  text : List Char
  free : ¬ "import".toList <:+: text

/-- Statements, each with the text before it, and the text behind the last one. -/
structure Interleaving where
  parts : List (Chunk × Statement)
  trailer : Chunk

namespace Interleaving

def text (i : Interleaving) : List Char :=
  (i.parts.flatMap fun p => p.1.text ++ p.2.text) ++ i.trailer.text

def targets (i : Interleaving) : List (List Char) := i.parts.map (·.2.target)

end Interleaving

section Reading
variable {name word text rest gap gap' space space' ahead : List Char} {c : Char}

theorem isBlank_of_isNameChar (h : isNameChar c = true) : isBlank c = false := by
  rcases Bool.or_eq_true_iff.mp h with h | h
  · exact isBlank_of_isWordChar h
  · rw [beq_iff_eq.mp h]
    decide

theorem isNameChar_of_isBlank (h : isBlank c = true) : isNameChar c = false := by
  by_contra hname
  rw [Bool.not_eq_false] at hname
  rw [isBlank_of_isNameChar hname] at h
  cases h

/-- What a group starts with is neither a blank nor in a name. -/
theorem group_apart (h : c ∈ ['\x7b','*']) : isBlank c = false ∧ isNameChar c = false := by
  simp only [List.mem_cons, List.not_mem_nil, or_false] at h
  rcases h with rfl | rfl <;> decide

theorem isQuote_cases (h : isQuote c = true) : c = '"' ∨ c = '\'' := by
  simpa [isQuote] using h

/-- A quote is no blank and begins neither a name nor a group. -/
theorem quote_apart (h : isQuote c = true) :
    isBlank c = false ∧ isNameChar c = false ∧ c ∉ ['\x7b','*'] := by
  rcases isQuote_cases h with rfl | rfl <;> decide

theorem Name.head? (h : Name name) : ∀ c ∈ (name ++ rest).head?, isNameChar c = true := by
  obtain ⟨c,name,rfl⟩ := List.exists_cons_of_ne_nil h.1
  intro d hd
  cases hd
  exact h.2 c List.mem_cons_self

theorem Name.token (h : Name name) : Token name :=
  ⟨h.1,fun c hc => isBlank_of_isNameChar (h.2 c hc)⟩

theorem Name.head?_group (h : Name name) : ∀ c ∈ (name ++ rest).head?, c ∉ ['\x7b','*'] := by
  intro c hc hgroup
  have hname := h.head? c hc
  rw [(group_apart hgroup).2] at hname
  cases hname

theorem head?_gap (hg : Gap gap) : ∀ c ∈ (gap ++ rest).head?, isNameChar c = false :=
  fun c hc => isNameChar_of_isBlank (head?_blank_append hg.1 hg.2 c hc)

theorem head?_comma (hs : Blank space) : ∀ c ∈ (space ++ ',' :: rest).head?, isNameChar c = false := by
  intro c hc
  cases space with
  | nil =>
    cases hc
    decide
  | cons d space =>
    cases hc
    exact isNameChar_of_isBlank (hs c List.mem_cons_self)

theorem afterName_append (h : Name name) (hrest : ∀ c ∈ rest.head?, isNameChar c = false) :
    afterName (name ++ rest) = some rest := by
  rw [afterName, run_eq_some_iff.mpr ⟨h.1,h.2,rfl,hrest⟩]
  rfl

theorem afterName_eq_none (h : ∀ c ∈ text.head?, isNameChar c = false) : afterName text = none := by
  cases text with
  | nil => rfl
  | cons c text => simp [afterName, run, h c rfl]

theorem afterStar_eq (text : List Char) : afterStar text =
    (afterWordGap ['*'] text).bind fun text => (afterWordGap "as".toList text).bind afterName := by
  simp only [afterStar, afterWordGap, bind, Option.bind_assoc]
  rfl

theorem afterGroup_eq_none (h : ∀ c ∈ text.head?, c ∉ ['\x7b','*']) : afterGroup text = none := by
  cases text with
  | nil => rfl
  | cons c text =>
    have hc := h c rfl
    simp only [List.mem_cons, List.not_mem_nil, or_false, not_or] at hc
    simp [afterGroup, afterBraces, afterStar, afterWord, Ne.symm hc.1, Ne.symm hc.2]

theorem afterGroup_text (g : Group) (hrest : ∀ c ∈ rest.head?, isNameChar c = false) :
    afterGroup (g.text ++ rest) = some rest := by
  cases g with
  | braces inside closed =>
    have htext : (Group.braces inside closed).text ++ rest =
        ['\x7b'] ++ (inside ++ '\x7d' :: rest) := by simp [Group.text]
    have hbraces : afterBraces (['\x7b'] ++ (inside ++ '\x7d' :: rest)) = some rest := by
      rw [afterBraces, afterWord_eq_some_iff.mpr rfl]
      exact (congrArg (afterWord ['\x7d']) (dropWhile_ne closed rest)).trans
        (afterWord_eq_some_iff.mpr rfl)
    rw [htext, afterGroup, hbraces, Option.some_or]
  | star gap gap' name hgap hgap' hname =>
    have htext : (Group.star gap gap' name hgap hgap' hname).text ++ rest =
        ['*'] ++ (gap ++ ("as".toList ++ (gap' ++ (name ++ rest)))) := by simp [Group.text]
    have hbraces : afterBraces (['*'] ++ (gap ++ ("as".toList ++ (gap' ++ (name ++ rest))))) = none := rfl
    rw [htext, afterGroup, hbraces, Option.none_or, afterStar_eq,
      afterWordGap_append hgap (Token.head? (by decide)), Option.bind_some,
      afterWordGap_append hgap' hname.token.head?, Option.bind_some, afterName_append hname hrest]

theorem Group.head? (g : Group) : ∀ c ∈ (g.text ++ rest).head?, c ∈ ['\x7b','*'] := by
  intro c hc
  cases g <;> cases hc <;> decide

theorem afterCommaGroup_text (hs : Blank space) (hs' : Blank space') (g : Group)
    (hrest : ∀ c ∈ rest.head?, isNameChar c = false) :
    afterCommaGroup (space ++ ',' :: (space' ++ (g.text ++ rest))) = some rest := by
  have hcomma : skipBlanks (space ++ ',' :: (space' ++ (g.text ++ rest))) =
      [','] ++ (space' ++ (g.text ++ rest)) :=
    skipBlanks_eq hs (by rintro c ⟨⟩; decide)
  have hgroup : skipBlanks (space' ++ (g.text ++ rest)) = g.text ++ rest :=
    skipBlanks_eq hs' fun c hc => (group_apart (g.head? c hc)).1
  rw [afterCommaGroup, hcomma, afterWord_eq_some_iff.mpr rfl, Option.bind_eq_bind, Option.bind_some,
    hgroup, afterGroup_text g hrest]

theorem afterCommaGroup_eq_none (hs : Blank space)
    (h : ∀ c ∈ text.head?, isBlank c = false ∧ c ≠ ',') : afterCommaGroup (space ++ text) = none := by
  rw [afterCommaGroup, skipBlanks_eq hs fun c hc => (h c hc).1,
    afterWord_eq_none rfl fun c hc => (h c hc).2]
  rfl

theorem afterBinding_text (b : Binding) (hgap : Gap gap)
    (h : ∀ c ∈ text.head?, isBlank c = false ∧ c ≠ ',') :
    afterBinding (b.text ++ (gap ++ text)) = some (gap ++ text) := by
  cases b with
  | group g => rw [Binding.text, afterBinding, afterGroup_text g (head?_gap hgap), Option.some_or]
  | single name hname =>
    rw [Binding.text, afterBinding, afterGroup_eq_none hname.head?_group, Option.none_or,
      afterName_append hname (head?_gap hgap), Option.map_some, afterCommaGroup_eq_none hgap.2 h,
      Option.getD_none]
  | both name space space' g hname hspace hspace' =>
    have htext : (Binding.both name space space' g hname hspace hspace').text ++ (gap ++ text) =
        name ++ (space ++ ',' :: (space' ++ (g.text ++ (gap ++ text)))) := by simp [Binding.text]
    rw [htext, afterBinding, afterGroup_eq_none hname.head?_group, Option.none_or,
      afterName_append hname (head?_comma hspace), Option.map_some,
      afterCommaGroup_text hspace hspace' g (head?_gap hgap), Option.getD_some]

theorem afterBinding_eq_none (h : ∀ c ∈ text.head?, isNameChar c = false ∧ c ∉ ['\x7b','*']) :
    afterBinding text = none := by
  rw [afterBinding, afterGroup_eq_none fun c hc => (h c hc).2, afterName_eq_none fun c hc => (h c hc).1]
  rfl

theorem boundSpecifier_eq (text : List Char) : boundSpecifier text = (afterBinding text).bind fun text =>
    (afterBlanks text).bind fun text => (afterWordGap "from".toList text).bind specifier := by
  simp only [boundSpecifier, afterWordGap, bind, Option.bind_assoc]

theorem Specifier.head? (s : Specifier) : ∀ c ∈ (s.text ++ rest).head?, isQuote c = true := by
  rintro c ⟨⟩
  exact s.opens

theorem specifier_text (s : Specifier) : specifier (s.text ++ rest) = some (s.target,rest) := by
  have htext : s.text ++ rest = s.opening :: (s.target ++ s.closing :: rest) := by simp [Specifier.text]
  have hrun : run (!isQuote ·) (s.target ++ s.closing :: rest) = some (s.target,s.closing :: rest) := by
    refine run_eq_some_iff.mpr ⟨s.ne_nil,fun c hc => by simp [s.unquoted c hc],rfl,?_⟩
    rintro c ⟨⟩
    simp [s.closes]
  simp [specifier, htext, afterChar, s.opens, hrun, s.closes]

theorem specifier_eq_none (h : ∀ c ∈ text.head?, isQuote c = false) : specifier text = none := by
  cases text with
  | nil => rfl
  | cons c text => simp [specifier, afterChar, h c rfl]

theorem clause_text (c : Clause) : clause (c.text ++ rest) = some (c.target,rest) := by
  cases c with
  | bare s =>
    have hnone : afterBinding (s.text ++ rest) = none := afterBinding_eq_none fun c hc =>
      ⟨(quote_apart (s.head? c hc)).2.1,(quote_apart (s.head? c hc)).2.2⟩
    rw [Clause.text, Clause.target, clause, boundSpecifier_eq, hnone, Option.bind_none, Option.none_or,
      specifier_text]
  | bound b gap gap' s hgap hgap' =>
    have htext : (Clause.bound b gap gap' s hgap hgap').text ++ rest =
        b.text ++ (gap ++ ("from".toList ++ (gap' ++ (s.text ++ rest)))) := by
      simp only [Clause.text, List.append_assoc]
    have hfrom : ∀ c ∈ ("from".toList ++ (gap' ++ (s.text ++ rest))).head?,
        isBlank c = false ∧ c ≠ ',' := by
      rintro c ⟨⟩
      decide
    rw [htext, clause, boundSpecifier_eq, afterBinding_text b hgap hfrom, Option.bind_some,
      afterBlanks_append hgap (fun c hc => (hfrom c hc).1), Option.bind_some,
      afterWordGap_append hgap' fun c hc => (quote_apart (s.head? c hc)).1, Option.bind_some,
      specifier_text, Option.some_or, Clause.target]

theorem Clause.head? (c : Clause) : ∀ d ∈ (c.text ++ rest).head?, isBlank d = false := by
  intro d hd
  cases c with
  | bare s => exact (quote_apart (s.head? d hd)).1
  | bound b gap gap' s =>
    rw [Clause.text, List.append_assoc] at hd
    cases b with
    | group g => exact (group_apart (g.head? d hd)).1
    | single name hname => exact hname.token.head? d hd
    | both name space space' g hname =>
      rw [Binding.text, List.append_assoc] at hd
      exact hname.token.head? d hd

/-- The word `from` and a specifier alone are no clause. -/
theorem clause_from (hgap : Gap gap) (s : Specifier) :
    clause ("from".toList ++ (gap ++ (s.text ++ rest))) = none := by
  have hquote : ∀ c ∈ (s.text ++ rest).head?, isBlank c = false ∧ c ≠ ',' ∧ c ≠ 'f' := by
    intro c hc
    rcases isQuote_cases (s.head? c hc) with rfl | rfl <;> decide
  have hbinding : afterBinding ("from".toList ++ (gap ++ (s.text ++ rest))) =
      some (gap ++ (s.text ++ rest)) :=
    afterBinding_text (.single "from".toList (by decide)) hgap fun c hc =>
      ⟨(hquote c hc).1,(hquote c hc).2.1⟩
  have hword : afterWordGap "from".toList (s.text ++ rest) = none := by
    rw [afterWordGap, afterWord_eq_none rfl fun c hc => (hquote c hc).2.2]
    rfl
  rw [clause, boundSpecifier_eq, hbinding, Option.bind_some,
    afterBlanks_append hgap fun c hc => (hquote c hc).1, Option.bind_some, hword]
  rfl

/-- A word and a gap before a name and blanks are that name and those blanks. -/
theorem afterWordGap_name (hword : Name word) (hname : Name name) (hspace : Blank space)
    (hrest : ∀ c ∈ (space ++ rest).head?, isNameChar c = false)
    (hahead : ∀ c ∈ rest.head?, isBlank c = false)
    (h : afterWordGap word (name ++ (space ++ rest)) = some ahead) : ahead = rest := by
  obtain ⟨gap,hgap,htext,hblank⟩ := afterWordGap_eq_some_iff.mp h
  have hbehind : space ++ rest = gap ++ ahead := by
    rw [← dropWhile_append hname.2 hrest, htext, dropWhile_append hword.2 (head?_gap hgap)]
  rw [← skipBlanks_eq hgap.2 hblank, ← hbehind, skipBlanks_eq hspace hahead]

theorem clause_comma (text : List Char) : clause (',' :: text) = none := by
  have hbinding : afterBinding (',' :: text) = none :=
    afterBinding_eq_none (by rintro c ⟨⟩; decide)
  rw [clause, boundSpecifier_eq, hbinding, Option.bind_none, Option.none_or]
  exact specifier_eq_none (by rintro c ⟨⟩; decide)

/-- The word `type` in front of a clause is the name that it binds, and no clause follows that name. -/
theorem clause_eq_none_of_type {c : Clause}
    (h : afterWordGap "type".toList (c.text ++ rest) = some ahead) : clause ahead = none := by
  have htype : Name "type".toList := by decide
  have hhead : (c.text ++ rest).head? = some 't' := by
    obtain ⟨gap,-,htext,-⟩ := afterWordGap_eq_some_iff.mp h
    rw [htext]
    rfl
  cases c with
  | bare s =>
    have hquote := s.head? 't' hhead
    exact absurd hquote (by decide)
  | bound b gap gap' s hgap hgap' =>
    cases b with
    | group g =>
      rw [Clause.text, List.append_assoc] at hhead
      exact absurd (g.head? 't' hhead) (by decide)
    | single name hname =>
      have htext : (Clause.bound (.single name hname) gap gap' s hgap hgap').text ++ rest =
          name ++ (gap ++ ("from".toList ++ (gap' ++ (s.text ++ rest)))) := by
        simp only [Clause.text, Binding.text, List.append_assoc]
      rw [htext] at h
      rw [afterWordGap_name htype hname hgap.2 (head?_gap hgap) (Token.head? (by decide)) h]
      exact clause_from hgap' s
    | both name space space' g hname hspace hspace' =>
      have htext : (Clause.bound (.both name space space' g hname hspace hspace') gap gap' s hgap
            hgap').text ++ rest =
          name ++ (space ++ ',' :: (space' ++ (g.text ++ (gap ++ ("from".toList ++
            (gap' ++ (s.text ++ rest))))))) := by
        simp only [Clause.text, Binding.text, List.append_assoc, List.cons_append]
      rw [htext] at h
      rw [afterWordGap_name htype hname hspace (head?_comma hspace) (by rintro c ⟨⟩; decide) h]
      exact clause_comma _

theorem statement_eq (text : List Char) : statement text = (afterWordGap "import".toList text).bind
    fun text => ((afterWordGap "type".toList text).bind clause).or (clause text) := by
  simp only [statement, afterWordGap, bind, Option.bind_assoc]

theorem Statement.text_append (s : Statement) (rest : List Char) :
    s.text ++ rest = "import".toList ++ (s.body ++ rest) := List.append_assoc _ _ _

theorem statement_text (s : Statement) : statement (s.text ++ rest) = some (s.target,rest) := by
  rw [s.text_append, statement_eq]
  cases s with
  | plain gap c hgap =>
    have htype : (afterWordGap "type".toList (c.text ++ rest)).bind clause = none :=
      Option.bind_eq_none_iff.mpr fun _ => clause_eq_none_of_type
    rw [Statement.body, List.append_assoc, afterWordGap_append hgap c.head?, Option.bind_some, htype,
      Option.none_or, clause_text, Statement.target]
  | type gap gap' c hgap hgap' =>
    have hbody : (Statement.type gap gap' c hgap hgap').body ++ rest =
        gap ++ ("type".toList ++ (gap' ++ (c.text ++ rest))) := by
      simp only [Statement.body, List.append_assoc]
    rw [hbody, afterWordGap_append hgap (Token.head? (by decide)), Option.bind_some,
      afterWordGap_append hgap' c.head?, Option.bind_some, clause_text, Option.some_or, Statement.target]

theorem Statement.head? (s : Statement) : (s.text ++ rest).head? = some 'i' := rfl

theorem Statement.ne_nil (s : Statement) : s.text ≠ [] := List.cons_ne_nil _ _

theorem statement_eq_none (h : ¬ "import".toList <+: text) : statement text = none := by
  have hword : afterWord "import".toList text = none :=
    Option.not_isSome_iff_eq_none.mp fun hsome => h (afterWord_isSome_iff.mp hsome)
  rw [statement_eq, afterWordGap, hword]
  rfl

/-- No letter of `import` but the first is an `i`, so the word does not reach from a text without it
into a statement. -/
theorem Chunk.silent (k : Chunk) (last : Option Char) (h : ∀ c ∈ rest.head?, c = 'i') :
    Silent (fun _ => true) statement last k.text rest := by
  intro front back htext hne _
  refine statement_eq_none fun himport => k.free ?_
  rw [htext]
  exact (prefix_of_prefix_append (by decide : 'i' ∉ "mport".toList) hne h himport).isInfix.trans
    (List.suffix_append _ _).isInfix

theorem matchesFrom_interleaving (i : Interleaving) (last : Option Char) :
    matchesFrom (fun _ => true) statement last 0 i.text = i.targets := by
  obtain ⟨parts,trailer⟩ := i
  induction parts generalizing last with
  | nil => exact matchesFrom_eq_nil (trailer.silent last (by simp))
  | cons p parts ih =>
    obtain ⟨k,s⟩ := p
    have htext : (Interleaving.mk ((k,s) :: parts) trailer).text =
        k.text ++ (s.text ++ (Interleaving.mk parts trailer).text) := by simp [Interleaving.text]
    have hstart : ∀ c ∈ (s.text ++ (Interleaving.mk parts trailer).text).head?, c = 'i' := by
      intro c hc
      rw [s.head?] at hc
      exact (Option.some.inj hc).symm
    rw [htext, matchesFrom_silent (k.silent last hstart), matchesFrom_match rfl s.ne_nil (statement_text s),
      ih, Interleaving.targets, Interleaving.targets, List.map_cons]

/-- The specifiers of the statements are found, each once and in order, whatever stands between them. -/
theorem targets_interleaving (i : Interleaving) :
    targets (String.ofList i.text) = i.targets.map String.ofList := by
  rw [targets, String.toList_ofList, matchesFrom_interleaving]

/-- A specifier in single quotes. -/
def inQuotes (target : List Char) (hne : target ≠ []) (hfree : ∀ c ∈ target, isQuote c = false) :
    Specifier :=
  ⟨'\'',target,'\'',rfl,rfl,hne,hfree⟩

/-- Four statements, with names that could be other words of a statement, and text between them that
nearly holds the word `import`. -/
def digest : Interleaving where
  parts := [
    (⟨['i','m','p'],by decide⟩,
      .plain [' '] (.bound (.single ['t','y','p','e'] (by decide)) [' '] [' ']
        (inQuotes ['.','/','a'] (by decide) (by simp [isQuote])) (by decide) (by decide)) (by decide)),
    (⟨['\n','/','p','o','r','t','\n'],by decide⟩,
      .type [' '] [' '] (.bound (.both ['t','y','p','e'] [] [' ']
        (.star [' '] [' '] ['f','r','o','m'] (by decide) (by decide) (by decide))
        (by decide) (by decide) (by decide)) [' '] ['\n']
        (inQuotes ['b'] (by decide) (by simp [isQuote])) (by decide) (by decide)) (by decide)
        (by decide)),
    (⟨['\n'],by decide⟩,
      .plain [' '] (.bound (.group (.braces ['c',',','\n','d'] (by decide))) [' '] [' ']
        (inQuotes ['@','/','c'] (by decide) (by simp [isQuote])) (by decide) (by decide)) (by decide)),
    (⟨[';'],by decide⟩,
      .plain ['\n'] (.bare (inQuotes ['e'] (by decide) (by simp [isQuote]))) (by decide))]
  trailer := ⟨['.','i','m'],by decide⟩

theorem digest_text : String.ofList digest.text = "impimport type from './a'\n/port\n" ++
    "import type type, * as from from\n'b'\nimport \x7bc,\nd\x7d from '@/c';import\n'e'.im" := by
  decide +kernel

theorem targets_digest : targets ("impimport type from './a'\n/port\n" ++
    "import type type, * as from from\n'b'\nimport \x7bc,\nd\x7d from '@/c';import\n'e'.im") =
      ["./a","b","@/c","e"] := by
  rw [← digest_text]
  exact targets_interleaving digest

end Reading

end WebAtlas.Import
