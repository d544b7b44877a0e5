import WebAtlas.Proofs.Json.Atoms

/-! # The reader and the grammar

The reader takes a text for a value exactly when the text spells it, as long as no container opens
deeper than the reader goes. Where one does, and all before it is in order, it stops there.
-/
namespace WebAtlas.Json
variable {v : Parsed} {text rest : List Char} {depth room : Nat}

/-- A text that begins with a part of a container. -/
def Opens (text : List Char) : Prop :=
  ∃ c after, text = c :: after ∧ isLayout c = false ∧ c ≠ ']' ∧ c ≠ '}'

theorem Opens.head? (h : Opens text) : ∀ c ∈ text.head?, isLayout c = false := by
  obtain ⟨c,after,rfl,hc,-⟩ := h
  intro d hd
  cases hd
  exact hc

theorem Opens.append (h : Opens text) : Opens (text ++ rest) := by
  obtain ⟨c,after,rfl,hc⟩ := h
  exact ⟨c,after ++ rest,rfl,hc⟩

theorem Opens.length_pos (h : Opens text) : 0 < text.length := by
  obtain ⟨c,after,rfl,-⟩ := h
  exact Nat.succ_pos _

theorem skipLayout_append {before : List Char} (hbefore : Layout before)
    (h : ∀ c ∈ text.head?, isLayout c = false) : skipLayout (before ++ text) = text :=
  Text.dropWhile_append hbefore h

theorem skipLayout_split (text : List Char) : ∃ before, Layout before ∧ text = before ++ skipLayout text :=
  ⟨text.takeWhile isLayout,fun _ hc => List.mem_takeWhile_imp hc,List.takeWhile_append_dropWhile.symm⟩

theorem Layout.append {before : List Char} (hb : Layout before) (h : Layout text) :
    Layout (before ++ text) := List.forall_mem_append.mpr ⟨hb,h⟩

theorem layout_nil : Layout [] := nofun

theorem Stops.layout_append {before : List Char} (hbefore : Layout before) (h : Stops rest) :
    Stops (before ++ rest) := by
  cases before with
  | nil => exact h
  | cons c before => exact .of_cons (.inl (hbefore c List.mem_cons_self))

section containers
variable {α : Type} {part : Read α} {spells : α → List Char → Prop} {begins : List Char → Prop}
  {close : Char} {value : α} {values : List α} {count : Nat} {before : List Char}

theorem Padded.layout_append (hbefore : Layout before) (h : Padded spells value text) :
    Padded spells value (before ++ text) := by
  obtain ⟨front,inner,after,hfront,hinner,hafter,rfl⟩ := h
  exact ⟨before ++ front,inner,after,hbefore.append hfront,hinner,hafter,(List.append_assoc ..).symm⟩

theorem Parts.layout_append (hbefore : Layout before) (h : Parts spells values text) :
    Parts spells values (before ++ text) := by
  cases h with
  | last h => exact .last (h.layout_append hbefore)
  | more h hmore =>
    rw [← List.append_assoc]
    exact .more (h.layout_append hbefore) hmore

theorem Reaches.layout_append (hbefore : Layout before) (h : Reaches spells begins text) :
    Reaches spells begins (before ++ text) := by
  cases h with
  | here hfront h =>
    rw [← List.append_assoc]
    exact .here (hbefore.append hfront) h
  | later h hlater =>
    rw [← List.append_assoc]
    exact .later (h.layout_append hbefore) hlater

theorem map_eq_ok_iff {β : Type} {f : α → β} {result : Except ReadFault α} {b : β} :
    result.map f = .ok b ↔ ∃ a, result = .ok a ∧ f a = b := by
  rcases result with e | a <;> simp [Except.map]

theorem map_eq_error_iff {β : Type} {f : α → β} {result : Except ReadFault α} {e : ReadFault} :
    result.map f = .error e ↔ result = .error e := by
  rcases result with e | a <;> simp [Except.map]

/-- A reader takes what a text spells, and stops where a container opens too deep. -/
structure Follows (part : Read α) (spells : α → List Char → Prop) (begins : List Char → Prop) : Prop where
  opens : ∀ {value text}, spells value text → Opens text
  begins_opens : ∀ {text}, begins text → Opens text
  reads : ∀ {value text rest}, spells value text → Stops rest → part (text ++ rest) = .ok (value,rest)
  spelled : ∀ {text value rest}, part text = .ok (value,rest) →
    ∃ taken, spells value taken ∧ text = taken ++ rest
  begun : ∀ {text container}, part text = .error (.nesting container) → begins text
  stopped : ∀ {text}, begins text → ∃ container, part text = .error (.nesting container)

theorem readParts_succ (part : Read α) (close : Char) (count : Nat) (text : List Char) :
    readParts part close (count + 1) text = match part text with
      | .error e => .error e
      | .ok (value,behind) => match skipLayout behind with
        | [] => .error .malformed
        | c :: after =>
          if c = close then .ok ([value],after)
          else if c = ',' then (readParts part close count (skipLayout after)).map fun more =>
            (value :: more.1,more.2)
          else .error .malformed := by
  rw [readParts]
  rcases part text with e | ⟨value,behind⟩
  · rfl
  · simp only [bind, Except.bind]
    rcases skipLayout behind with _ | ⟨c,after⟩
    · rfl
    · dsimp only
      split_ifs
      · rfl
      · rcases readParts part close count (skipLayout after) with e | ⟨more,rest⟩ <;> rfl
      · rfl

/-- Where a part begins behind layout. -/
theorem Follows.skip (hp : Follows part spells begins) (h : Padded spells value text) :
    ∃ inner after, spells value inner ∧ Layout after ∧
      ∀ rest, skipLayout (text ++ rest) = inner ++ (after ++ rest) := by
  obtain ⟨before,inner,after,hbefore,hinner,hafter,rfl⟩ := h
  refine ⟨inner,after,hinner,hafter,fun rest => ?_⟩
  rw [List.append_assoc, List.append_assoc]
  exact skipLayout_append hbefore (hp.opens hinner).append.head?

section
variable (hp : Follows part spells begins)
include hp

/-- A part that is read, with the layout behind it. -/
theorem padded_of_read {behind : List Char} (h : part text = .ok (value,behind)) :
    ∃ taken, Padded spells value taken ∧ text = taken ++ skipLayout behind := by
  obtain ⟨taken,htaken,rfl⟩ := hp.spelled h
  obtain ⟨after,hafter,hbehind⟩ := skipLayout_split behind
  exact ⟨taken ++ after,⟨[],taken,after,layout_nil,htaken,hafter,rfl⟩,
    by rw [List.append_assoc, ← hbehind]⟩

theorem parts_of_readParts (h : readParts part close count text = .ok (values,rest)) :
    ∃ inside, Parts spells values inside ∧ text = inside ++ close :: rest := by
  induction count generalizing text values with
  | zero => cases h
  | succ count ih =>
    rw [readParts_succ] at h
    split at h
    · cases h
    rename_i value behind hread
    obtain ⟨taken,htaken,rfl⟩ := padded_of_read hp hread
    split at h
    · cases h
    rename_i c ahead hskip
    rw [hskip]
    split_ifs at h with hc hcomma
    · cases h
      exact ⟨taken,.last htaken,by rw [hc]⟩
    obtain ⟨⟨more,last⟩,hmore,heq⟩ := map_eq_ok_iff.mp h
    cases heq
    obtain ⟨inside,hinside,htext⟩ := ih hmore
    obtain ⟨front,hfront,hahead⟩ := skipLayout_split ahead
    refine ⟨_,.more htaken (hinside.layout_append hfront),?_⟩
    rw [hcomma, hahead, htext]
    simp

theorem reaches_of_readParts {container : Container}
    (h : readParts part close count text = .error (.nesting container)) : Reaches spells begins text := by
  induction count generalizing text with
  | zero => cases h
  | succ count ih =>
    rw [readParts_succ] at h
    split at h
    · rename_i e hread
      cases h
      exact .here layout_nil (hp.begun hread)
    rename_i value behind hread
    obtain ⟨taken,htaken,rfl⟩ := padded_of_read hp hread
    split at h
    · cases h
    rename_i c ahead hskip
    rw [hskip]
    split_ifs at h with hc hcomma
    · obtain ⟨front,hfront,hahead⟩ := skipLayout_split ahead
      rw [hcomma, hahead]
      exact .later htaken ((ih (map_eq_error_iff.mp h)).layout_append hfront)
    · cases h

variable (hclose : close = ']' ∨ close = '}') {inner after behind : List Char} (hinner : spells value inner)
  (hafter : Layout after)
include hclose hinner hafter

theorem readParts_last : readParts part close (count + 1) (inner ++ (after ++ close :: rest)) =
    .ok ([value],rest) := by
  have hstops : Stops (close :: rest) := .of_cons (.inr (.inr hclose))
  have hlayout : ∀ c ∈ (close :: rest).head?, isLayout c = false := by
    rcases hclose with rfl | rfl <;> simp [isLayout]
  rw [readParts_succ, hp.reads hinner (hstops.layout_append hafter)]
  dsimp only
  rw [skipLayout_append hafter hlayout]
  exact if_pos rfl

theorem readParts_more : readParts part close (count + 1) (inner ++ (after ++ ',' :: behind)) =
    (readParts part close count (skipLayout behind)).map fun more => (value :: more.1,more.2) := by
  have hmark : ',' ≠ close := by rcases hclose with rfl | rfl <;> decide
  have hstops : Stops (',' :: behind) := .of_cons (.inr (.inl rfl))
  rw [readParts_succ, hp.reads hinner (hstops.layout_append hafter)]
  dsimp only
  rw [skipLayout_append hafter (by simp [isLayout])]
  dsimp only
  rw [if_neg hmark, if_pos rfl]

end

section
variable (hp : Follows part spells begins) (hclose : close = ']' ∨ close = '}')
include hp hclose

-- each part takes a character at least, so a count as large as the text is never used up
theorem readParts_of_parts (h : Parts spells values text)
    (hcount : (skipLayout (text ++ close :: rest)).length ≤ count) :
    readParts part close count (skipLayout (text ++ close :: rest)) = .ok (values,rest) := by
  induction h generalizing count with
  | last h =>
    obtain ⟨inner,after,hinner,hafter,hskip⟩ := hp.skip h
    rw [hskip] at hcount ⊢
    have hpos := (hp.opens hinner).append.length_pos.trans_le hcount
    obtain ⟨count,rfl⟩ := Nat.exists_eq_add_one_of_ne_zero hpos.ne'
    exact readParts_last hp hclose hinner hafter
  | @more value values text behind h hmore ih =>
    obtain ⟨inner,after,hinner,hafter,hskip⟩ := hp.skip h
    rw [List.append_assoc, List.cons_append, hskip] at hcount ⊢
    have hpos := (hp.opens hinner).length_pos
    have hshorter := List.length_dropWhile_le isLayout (behind ++ close :: rest)
    simp only [List.length_append, List.length_cons] at hcount hshorter
    obtain ⟨count,rfl⟩ := Nat.exists_eq_add_one_of_ne_zero (show count ≠ 0 by omega)
    rw [readParts_more hp hclose hinner hafter, ih (by rw [skipLayout]; omega)]
    rfl

theorem readParts_of_reaches (h : Reaches spells begins text) (hcount : (skipLayout text).length ≤ count) :
    ∃ container, readParts part close count (skipLayout text) = .error (.nesting container) := by
  induction h generalizing count with
  | here hbefore h =>
    have hopens := hp.begins_opens h
    rw [skipLayout_append hbefore hopens.head?] at hcount ⊢
    obtain ⟨count,rfl⟩ := Nat.exists_eq_add_one_of_ne_zero (hopens.length_pos.trans_le hcount).ne'
    obtain ⟨container,hstop⟩ := hp.stopped h
    exact ⟨container,by rw [readParts_succ, hstop]⟩
  | @later value text behind h hlater ih =>
    obtain ⟨inner,after,hinner,hafter,hskip⟩ := hp.skip h
    rw [hskip] at hcount ⊢
    have hpos := (hp.opens hinner).length_pos
    have hshorter := List.length_dropWhile_le isLayout behind
    simp only [List.length_append, List.length_cons] at hcount
    obtain ⟨count,rfl⟩ := Nat.exists_eq_add_one_of_ne_zero (show count ≠ 0 by omega)
    obtain ⟨container,hstop⟩ := @ih count (by rw [skipLayout]; omega)
    exact ⟨container,by rw [readParts_more hp hclose hinner hafter, hstop]; rfl⟩

end

section
variable (hp : Follows part spells begins)
include hp

theorem Parts.opens (h : Parts spells values text) (rest : List Char) :
    Opens (skipLayout (text ++ rest)) := by
  cases h with
  | last h =>
    obtain ⟨inner,after,hinner,-,hskip⟩ := hp.skip h
    rw [hskip]
    exact (hp.opens hinner).append
  | more h hmore =>
    obtain ⟨inner,after,hinner,-,hskip⟩ := hp.skip h
    rw [List.append_assoc, hskip]
    exact (hp.opens hinner).append

theorem Reaches.opens (h : Reaches spells begins text) : Opens (skipLayout text) := by
  cases h with
  | here hbefore h =>
    have hopens := hp.begins_opens h
    rwa [skipLayout_append hbefore hopens.head?]
  | later h hlater =>
    obtain ⟨inner,after,hinner,-,hskip⟩ := hp.skip h
    rw [hskip]
    exact (hp.opens hinner).append

end

theorem readContainer_of_opens (hclose : close = ']' ∨ close = '}') (h : Opens (skipLayout text)) :
    readContainer part close text = readParts part close (skipLayout text).length (skipLayout text) := by
  unfold readContainer
  obtain ⟨c,after,hskip,-,hbracket,hbrace⟩ := h
  rw [hskip]
  refine if_neg ?_
  rcases hclose with rfl | rfl
  · exact hbracket
  · exact hbrace

section
variable {opening : Char} (hp : Follows part spells begins) (hclose : close = ']' ∨ close = '}')
include hp hclose

theorem Bracketed.read (h : Bracketed opening close spells values text) : ∃ behind,
    text = opening :: behind ∧ ∀ rest, readContainer part close (behind ++ rest) = .ok (values,rest) := by
  obtain ⟨inside,hinside,rfl⟩ := h
  refine ⟨_,rfl,fun rest => ?_⟩
  rw [List.append_assoc, List.singleton_append]
  rcases hinside with ⟨rfl,hlayout⟩ | hparts
  · have hmark : ∀ c ∈ (close :: rest).head?, isLayout c = false := by
      rcases hclose with rfl | rfl <;> simp [isLayout]
    rw [readContainer, skipLayout_append hlayout hmark]
    exact if_pos rfl
  · rw [readContainer_of_opens hclose (hparts.opens hp _)]
    exact readParts_of_parts hp hclose hparts (Nat.le_refl _)

omit hclose in
theorem bracketed_of_read (h : readContainer part close text = .ok (values,rest)) :
    ∃ behind, Bracketed opening close spells values (opening :: behind) ∧ text = behind ++ rest := by
  obtain ⟨before,hbefore,htext⟩ := skipLayout_split text
  unfold readContainer at h
  split at h
  · cases h
  · rename_i c after hskip
    rw [hskip] at htext
    split_ifs at h with hc
    · cases h
      exact ⟨before ++ [close],⟨before,.inl ⟨rfl,hbefore⟩,rfl⟩,by simp [htext, hc]⟩
    · obtain ⟨inside,hinside,hafter⟩ := parts_of_readParts hp h
      refine ⟨before ++ inside ++ [close],⟨_,.inr (hinside.layout_append hbefore),rfl⟩,?_⟩
      simp [htext, hafter]

theorem readContainer_nesting_iff :
    (∃ container, readContainer part close text = .error (.nesting container)) ↔
      Reaches spells begins text := by
  constructor
  · rintro ⟨container,h⟩
    obtain ⟨before,hbefore,htext⟩ := skipLayout_split text
    unfold readContainer at h
    split at h
    · cases h
    · rename_i c after hskip
      split_ifs at h
      rw [hskip] at htext
      rw [htext]
      exact (reaches_of_readParts hp h).layout_append hbefore
  · intro h
    rw [readContainer_of_opens hclose (h.opens hp)]
    exact readParts_of_reaches hp hclose h (Nat.le_refl _)

end

end containers

section members
variable {part : Read Parsed} {spells : Parsed → List Char → Prop} {begins kind : List Char → Prop}
  {name : CodePoints}

theorem readMember_quoted {behind ahead : List Char} (hname : readString text = .ok (name,behind))
    (hcolon : skipLayout behind = ':' :: ahead) : readMember part ('"' :: text) =
      (part (skipLayout ahead)).map fun read => ((name,read.1),read.2) := by
  rw [readMember, hname]
  simp only [bind, Except.bind, hcolon]
  rcases part (skipLayout ahead) with e | ⟨v,rest⟩ <;> rfl

theorem Named.opens (h : Named kind name text) : Opens text := by
  obtain ⟨written,after,before,value,hname,-,-,-,rfl⟩ := h
  obtain ⟨behind,rfl,-⟩ := hname.read
  exact ⟨'"',_,rfl,by decide⟩

theorem Named.read (hopens : ∀ text, kind text → Opens text) (h : Named kind name text) :
    ∃ value, kind value ∧ ∀ rest, readMember part (text ++ rest) =
      (part (value ++ rest)).map fun read => ((name,read.1),read.2) := by
  obtain ⟨written,after,before,value,hname,hafter,hbefore,hvalue,rfl⟩ := h
  obtain ⟨behind,rfl,hread⟩ := hname.read
  refine ⟨value,hvalue,fun rest => ?_⟩
  simp only [List.cons_append, List.append_assoc]
  rw [readMember_quoted (hread _) (skipLayout_append hafter (by simp [isLayout])),
    skipLayout_append hbefore (hopens value hvalue).append.head?]

/-- A text that is not refused at once has a name and a colon before what is read for the value. -/
theorem readMember_cases (part : Read Parsed) (text : List Char) :
    readMember part text = .error .malformed ∨ ∃ name front value, text = front ++ value ∧
      readMember part text = (part value).map (fun read => ((name,read.1),read.2)) ∧
      ∀ (kind : List Char → Prop) taken, kind taken → Named kind name (front ++ taken) := by
  by_cases hquote : ∃ behind, text = '"' :: behind
  · obtain ⟨behind,rfl⟩ := hquote
    rcases hname : readString behind with e | ⟨name,rest⟩
    · have he : e = .malformed := by
        unfold readString at hname
        split at hname <;> cases hname
        rfl
      exact .inl (by rw [readMember, hname, he]; rfl)
    by_cases hcolon : ∃ ahead, skipLayout rest = ':' :: ahead
    · obtain ⟨ahead,hahead⟩ := hcolon
      obtain ⟨written,hwritten,rfl⟩ := quoted_of_read hname
      obtain ⟨after,hafter,hrest⟩ := skipLayout_split rest
      obtain ⟨before,hbefore,hvalue⟩ := skipLayout_split ahead
      refine .inr ⟨name,'"' :: written ++ (after ++ ':' :: before),skipLayout ahead,?_,
        readMember_quoted hname hahead,fun kind taken h => ?_⟩
      · rw [hrest, hahead]
        simp [← hvalue]
      · exact ⟨_,after,before,taken,hwritten,hafter,hbefore,h,by simp⟩
    · left
      rw [readMember, hname]
      simp only [bind, Except.bind]
      split
      · rename_i ahead hahead
        exact absurd ⟨ahead,hahead⟩ hcolon
      · rfl
  · left
    unfold readMember
    split
    · exact absurd ⟨_,rfl⟩ hquote
    · rfl

theorem follows_member (hp : Follows part spells begins) :
    Follows (readMember part) (Member spells) fun text => ∃ name, Named begins name text where
  opens := Named.opens
  begins_opens h := h.choose_spec.opens
  reads h hrest := by
    obtain ⟨value,hvalue,hread⟩ := Named.read (fun _ => hp.opens) h
    rw [hread, hp.reads hvalue hrest]
    rfl
  spelled {text member rest} h := by
    rcases readMember_cases part text with hcases | ⟨name,front,value,rfl,hread,hnamed⟩
    · rw [hcases] at h
      cases h
    obtain ⟨⟨v,behind⟩,hvalue,heq⟩ := map_eq_ok_iff.mp (hread.symm.trans h)
    cases heq
    obtain ⟨taken,htaken,rfl⟩ := hp.spelled hvalue
    exact ⟨front ++ taken,hnamed _ taken htaken,(List.append_assoc ..).symm⟩
  begun {text container} h := by
    rcases readMember_cases part text with hcases | ⟨name,front,value,rfl,hread,hnamed⟩
    · rw [hcases] at h
      cases h
    exact ⟨name,hnamed _ value (hp.begun (map_eq_error_iff.mp (hread.symm.trans h)))⟩
  stopped {text} h := by
    obtain ⟨name,h⟩ := h
    obtain ⟨value,hvalue,hread⟩ := @Named.read text part begins name (fun _ => hp.begins_opens) h
    obtain ⟨container,hstop⟩ := hp.stopped hvalue
    have hwhole := hread []
    rw [List.append_nil, List.append_nil, hstop] at hwhole
    exact ⟨container,hwhole⟩

end members

theorem readValue_quote (depth : Nat) (text : List Char) : readValue depth ('"' :: text) =
    (readString text).map fun read => (.string read.1,read.2) := by
  rw [readValue]
  rcases readString text with e | ⟨value,rest⟩ <;> rfl

theorem readValue_array (depth : Nat) (text : List Char) : readValue (depth + 1) ('[' :: text) =
    (readContainer (readValue depth) ']' text).map fun read => (.array read.1,read.2) := by
  rw [readValue]
  rcases readContainer (readValue depth) ']' text with e | ⟨items,rest⟩ <;> rfl

theorem readValue_object (depth : Nat) (text : List Char) : readValue (depth + 1) ('{' :: text) =
    (readContainer (readMember (readValue depth)) '}' text).map fun read => (.object read.1,read.2) := by
  rw [readValue]
  rcases readContainer (readMember (readValue depth)) '}' text with e | ⟨members,rest⟩ <;> rfl

/-- Where no string, array or object begins, a value is a word or a number. -/
theorem readValue_scalar (h : ∀ c ∈ text.head?, c ≠ '"' ∧ c ≠ '[' ∧ c ≠ '{') :
    readValue depth text = readScalar text := by
  unfold readValue
  split <;> simp_all

theorem digit_ne {d : Char} (hd : d.isDigit = true) :
    isLayout d = false ∧ d ≠ '"' ∧ d ≠ '[' ∧ d ≠ ']' ∧ d ≠ '{' ∧ d ≠ '}' := by
  have hlayout : isLayout d = false := by
    by_contra hlayout
    have hmarks : d = ' ' ∨ d = '\t' ∨ d = '\n' ∨ d = '\r' := by
      simpa [isLayout, or_iff_not_imp_left] using hlayout
    rcases hmarks with rfl | rfl | rfl | rfl <;> cases hd
  refine ⟨hlayout,?_⟩
  refine ⟨?_,?_,?_,?_,?_⟩ <;> (rintro rfl; cases hd)

theorem Scalar.cons (h : Scalar v text) : ∃ c behind, text = c :: behind ∧
    isLayout c = false ∧ c ≠ '"' ∧ c ≠ '[' ∧ c ≠ ']' ∧ c ≠ '{' ∧ c ≠ '}' := by
  cases h with
  | word hword =>
    simp only [wordValues, List.mem_cons, Prod.mk.injEq, List.not_mem_nil, or_false] at hword
    rcases hword with ⟨rfl,-⟩ | ⟨rfl,-⟩ | ⟨rfl,-⟩ | ⟨rfl,-⟩ | ⟨rfl,-⟩ | ⟨rfl,-⟩
    all_goals exact ⟨_,_,rfl,by decide⟩
  | number hnumber =>
    obtain ⟨sign,d,behind,hs,hd,rfl⟩ := hnumber.cons
    rcases hs with rfl | rfl
    · exact ⟨d,behind,rfl,digit_ne hd⟩
    · exact ⟨'-',_,rfl,by decide⟩

theorem Atom.opens (h : Atom v text) : Opens text := by
  cases h with
  | string h =>
    obtain ⟨behind,rfl,-⟩ := h.read
    exact ⟨'"',behind,rfl,by decide⟩
  | scalar h =>
    obtain ⟨c,behind,rfl,hlayout,-,-,hbracket,-,hbrace⟩ := h.cons
    exact ⟨c,behind,rfl,hlayout,hbracket,hbrace⟩

theorem Atom.read (h : Atom v text) (hrest : Stops rest) :
    readValue depth (text ++ rest) = .ok (v,rest) := by
  cases h with
  | string h =>
    obtain ⟨behind,rfl,hread⟩ := h.read
    rw [List.cons_append, readValue_quote, hread]
    rfl
  | scalar h =>
    have hread := h.read hrest
    obtain ⟨c,behind,rfl,-,hquote,hbracket,-,hbrace,-⟩ := h.cons
    rwa [readValue_scalar]
    intro d hd
    cases hd
    exact ⟨hquote,hbracket,hbrace⟩

/-- A text begins with a bracket, or what is read is no container. -/
theorem readValue_cases (depth : Nat) (text : List Char) :
    (∃ behind, text = '[' :: behind) ∨ (∃ behind, text = '{' :: behind) ∨
      (∀ v rest, readValue depth text = .ok (v,rest) → ∃ taken, Atom v taken ∧ text = taken ++ rest) ∧
      ∀ container, readValue depth text ≠ .error (.nesting container) := by
  by_cases hbracket : ∃ behind, text = '[' :: behind
  · exact .inl hbracket
  by_cases hbrace : ∃ behind, text = '{' :: behind
  · exact .inr (.inl hbrace)
  refine .inr (.inr ?_)
  by_cases hquote : ∃ behind, text = '"' :: behind
  · obtain ⟨behind,rfl⟩ := hquote
    rw [readValue_quote]
    rcases hread : readString behind with e | ⟨value,rest⟩
    · refine ⟨nofun,fun container h => ?_⟩
      cases h
      unfold readString at hread
      split at hread <;> cases hread
    · refine ⟨fun v ahead h => ?_,nofun⟩
      cases h
      obtain ⟨written,hwritten,rfl⟩ := quoted_of_read hread
      exact ⟨_,.string hwritten,rfl⟩
  · have hscalar : readValue depth text = readScalar text := by
      refine readValue_scalar fun c hc => ?_
      obtain ⟨behind,rfl⟩ := List.head?_eq_some_iff.mp hc
      simpa using And.intro hquote (And.intro hbracket hbrace)
    rw [hscalar]
    refine ⟨fun v rest h => ?_,readScalar_ne_nesting text⟩
    obtain ⟨taken,htaken,htext⟩ := scalar_of_read h
    exact ⟨taken,.scalar htaken,htext⟩

/-- Where no container may open, the reader takes what is no container. -/
theorem follows_atom : Follows (readValue 0) (Spells 0) (Exceeds 0) where
  opens := Atom.opens
  begins_opens := by
    rintro text ⟨behind,rfl | rfl⟩
    · exact ⟨'[',behind,rfl,by decide⟩
    · exact ⟨'{',behind,rfl,by decide⟩
  reads := Atom.read
  spelled {text value rest} h := by
    rcases readValue_cases 0 text with ⟨behind,rfl⟩ | ⟨behind,rfl⟩ | ⟨hread,-⟩
    · cases h
    · cases h
    · exact hread _ _ h
  begun {text container} h := by
    rcases readValue_cases 0 text with ⟨behind,rfl⟩ | ⟨behind,rfl⟩ | ⟨-,hnone⟩
    · exact ⟨behind,.inl rfl⟩
    · exact ⟨behind,.inr rfl⟩
    · exact absurd h (hnone container)
  stopped := by
    rintro text ⟨behind,rfl | rfl⟩
    · exact ⟨_,rfl⟩
    · exact ⟨_,rfl⟩

/-- One container around what a reader follows. -/
theorem follows_container (hp : Follows (readValue depth) (Spells depth) (Exceeds depth)) :
    Follows (readValue (depth + 1)) (Spells (depth + 1)) (Exceeds (depth + 1)) where
  opens := by
    rintro v text (h | ⟨items,rfl,h⟩ | ⟨members,rfl,h⟩)
    · exact h.opens
    · obtain ⟨behind,rfl,-⟩ := h.read hp (.inl rfl)
      exact ⟨'[',behind,rfl,by decide⟩
    · obtain ⟨behind,rfl,-⟩ := h.read (follows_member hp) (.inr rfl)
      exact ⟨'{',behind,rfl,by decide⟩
  begins_opens := by
    rintro text (⟨behind,rfl,-⟩ | ⟨behind,rfl,-⟩)
    · exact ⟨'[',behind,rfl,by decide⟩
    · exact ⟨'{',behind,rfl,by decide⟩
  reads := by
    rintro v text rest (h | ⟨items,rfl,h⟩ | ⟨members,rfl,h⟩) hrest
    · exact h.read hrest
    · obtain ⟨behind,rfl,hread⟩ := h.read hp (.inl rfl)
      rw [List.cons_append, readValue_array, hread]
      rfl
    · obtain ⟨behind,rfl,hread⟩ := h.read (follows_member hp) (.inr rfl)
      rw [List.cons_append, readValue_object, hread]
      rfl
  spelled {text value rest} h := by
    rcases readValue_cases (depth + 1) text with ⟨behind,rfl⟩ | ⟨behind,rfl⟩ | ⟨hread,-⟩
    · rw [readValue_array] at h
      obtain ⟨⟨items,ahead⟩,hitems,heq⟩ := map_eq_ok_iff.mp h
      cases heq
      obtain ⟨taken,htaken,rfl⟩ := bracketed_of_read hp hitems
      exact ⟨_,.inr (.inl ⟨items,rfl,htaken⟩),rfl⟩
    · rw [readValue_object] at h
      obtain ⟨⟨members,ahead⟩,hmembers,heq⟩ := map_eq_ok_iff.mp h
      cases heq
      obtain ⟨taken,htaken,rfl⟩ := bracketed_of_read (follows_member hp) hmembers
      exact ⟨_,.inr (.inr ⟨members,rfl,htaken⟩),rfl⟩
    · obtain ⟨taken,htaken,htext⟩ := hread _ _ h
      exact ⟨taken,.inl htaken,htext⟩
  begun {text container} h := by
    rcases readValue_cases (depth + 1) text with ⟨behind,rfl⟩ | ⟨behind,rfl⟩ | ⟨-,hnone⟩
    · rw [readValue_array] at h
      have hinside := (readContainer_nesting_iff hp (.inl rfl)).mp ⟨_,map_eq_error_iff.mp h⟩
      exact .inl ⟨behind,rfl,hinside⟩
    · rw [readValue_object] at h
      have hinside :=
        (readContainer_nesting_iff (follows_member hp) (.inr rfl)).mp ⟨_,map_eq_error_iff.mp h⟩
      exact .inr ⟨behind,rfl,hinside⟩
    · exact absurd h (hnone container)
  stopped := by
    rintro text (⟨inside,rfl,h⟩ | ⟨inside,rfl,h⟩)
    · obtain ⟨container,hstop⟩ := (readContainer_nesting_iff hp (.inl rfl)).mpr h
      exact ⟨container,by rw [readValue_array, hstop]; rfl⟩
    · obtain ⟨container,hstop⟩ := (readContainer_nesting_iff (follows_member hp) (.inr rfl)).mpr h
      exact ⟨container,by rw [readValue_object, hstop]; rfl⟩

/-- The reader of values follows the grammar, at any depth. -/
theorem follows_value (depth : Nat) : Follows (readValue depth) (Spells depth) (Exceeds depth) := by
  induction depth with
  | zero => exact follows_atom
  | succ depth ih => exact follows_container ih

section depths
variable {α : Type} {spells spells' : α → List Char → Prop} {begins : List Char → Prop} {value : α}
  {values : List α} (hpart : ∀ value text, spells value text →
    spells' value text ∨ ∀ rest, begins (text ++ rest))
include hpart

theorem Padded.or_begins (h : Padded spells value text) : Padded spells' value text ∨
    ∀ rest, Reaches spells' begins (text ++ rest) := by
  obtain ⟨before,inner,after,hbefore,hinner,hafter,rfl⟩ := h
  rcases hpart value inner hinner with hinner | hbegins
  · exact .inl ⟨before,inner,after,hbefore,hinner,hafter,rfl⟩
  · refine .inr fun rest => ?_
    rw [List.append_assoc, List.append_assoc]
    exact .here hbefore (hbegins _)

theorem Parts.or_reaches (h : Parts spells values text) : Parts spells' values text ∨
    ∀ rest, Reaches spells' begins (text ++ rest) := by
  induction h with
  | last h => exact (h.or_begins hpart).imp_left .last
  | more h hmore ih =>
    simp only [List.append_assoc, List.cons_append]
    rcases h.or_begins hpart with h | hreaches
    · exact ih.imp (.more h) fun hreaches rest => .later h (hreaches rest)
    · exact .inr fun rest => hreaches _

theorem Bracketed.or_reaches {opening close : Char} (h : Bracketed opening close spells values text) :
    Bracketed opening close spells' values text ∨
      ∀ rest, ∃ inside, text ++ rest = opening :: inside ∧ Reaches spells' begins inside := by
  obtain ⟨inside,hempty | hparts,rfl⟩ := h
  · exact .inl ⟨inside,.inl hempty,rfl⟩
  · rcases hparts.or_reaches hpart with hparts | hreaches
    · exact .inl ⟨inside,.inr hparts,rfl⟩
    · refine .inr fun rest => ⟨inside ++ (close :: rest),by simp,hreaches _⟩

end depths

theorem Member.or_begins {spells spells' : Parsed → List Char → Prop} {begins : List Char → Prop}
    (hpart : ∀ v text, spells v text → spells' v text ∨ ∀ rest, begins (text ++ rest))
    {m : CodePoints × Parsed} (h : Member spells m text) :
    Member spells' m text ∨ ∀ rest, ∃ name, Named begins name (text ++ rest) := by
  obtain ⟨written,after,before,value,hname,hafter,hbefore,hvalue,rfl⟩ := h
  rcases hpart m.2 value hvalue with hvalue | hbegins
  · exact .inl ⟨written,after,before,value,hname,hafter,hbefore,hvalue,rfl⟩
  · exact .inr fun rest =>
      ⟨m.1,written,after,before,value ++ rest,hname,hafter,hbefore,hbegins rest,by simp⟩

/-- A value that is spelled with containers of any depth stays within a given one, or exceeds it. -/
theorem Spells.or_exceeds (limit : Nat) (h : Spells depth v text) :
    Spells limit v text ∨ ∀ rest, Exceeds limit (text ++ rest) := by
  induction limit generalizing depth v text with
  | zero =>
    cases depth with
    | zero => exact .inl h
    | succ depth =>
      rcases h with h | ⟨items,-,inside,-,rfl⟩ | ⟨members,-,inside,-,rfl⟩
      · exact .inl h
      · exact .inr fun rest => ⟨_,.inl rfl⟩
      · exact .inr fun rest => ⟨_,.inr rfl⟩
  | succ limit ih =>
    cases depth with
    | zero => exact .inl (.inl h)
    | succ depth =>
      rcases h with h | ⟨items,rfl,h⟩ | ⟨members,rfl,h⟩
      · exact .inl (.inl h)
      · exact (h.or_reaches fun _ _ => ih).imp (fun h => .inr (.inl ⟨items,rfl,h⟩))
          fun hreaches rest => .inl (hreaches rest)
      · exact (h.or_reaches fun _ _ => Member.or_begins fun _ _ => ih).imp
          (fun h => .inr (.inr ⟨members,rfl,h⟩)) fun hreaches rest => .inr (hreaches rest)

theorem read_eq (text : List Char) : read room text = match readValue room (skipLayout text) with
    | .error e => .error e
    | .ok (v,rest) => if (skipLayout rest).isEmpty then .ok v else .error .malformed := by
  rw [read]
  rcases readValue room (skipLayout text) with e | ⟨v,rest⟩
  · rfl
  · simp only [bind, Except.bind]
    split_ifs <;> rfl

/-- A reader stops at a container exactly when the text nests too deep. -/
theorem read_nesting_iff :
    (∃ container, read room text = .error (.nesting container)) ↔ TooDeep room text := by
  have hp := follows_value room
  rw [read_eq]
  constructor
  · rintro ⟨container,h⟩
    obtain ⟨before,hbefore,htext⟩ := skipLayout_split text
    refine ⟨before,skipLayout text,hbefore,?_,htext⟩
    split at h
    · rename_i e hread
      cases h
      exact hp.begun hread
    · split_ifs at h
      cases h
  · rintro ⟨before,value,hbefore,hvalue,rfl⟩
    rw [skipLayout_append hbefore (hp.begins_opens hvalue).head?]
    obtain ⟨container,hstop⟩ := hp.stopped hvalue
    exact ⟨container,by rw [hstop]⟩

/-- One array more than a reader goes into. -/
theorem tooDeep_brackets (room : Nat) : TooDeep room (List.replicate (room + 1) '[') := by
  have hexceeds : ∀ depth, Exceeds depth (List.replicate (depth + 1) '[') := by
    intro depth
    induction depth with
    | zero => exact ⟨[],.inl rfl⟩
    | succ depth ih => exact .inl ⟨_,rfl,.here layout_nil ih⟩
  exact ⟨[],_,layout_nil,hexceeds _,rfl⟩

theorem read_of_spells (h : Padded (Spells room) v text) : read room text = .ok v := by
  have hp := follows_value room
  obtain ⟨before,inner,after,hbefore,hinner,hafter,rfl⟩ := h
  have hstops : Stops (after ++ []) := Stops.layout_append hafter nofun
  have hread := hp.reads hinner hstops
  have hend : skipLayout (after ++ []) = [] := skipLayout_append hafter nofun
  rw [List.append_nil] at hread hend
  rw [read_eq, skipLayout_append hbefore (hp.opens hinner).append.head?, hread]
  simp [hend]

/-- A text that does not nest too deep is read as a value exactly when it spells that value. -/
theorem read_eq_ok_iff (h : ¬ TooDeep room text) : read room text = .ok v ↔ Document v text := by
  have hp := follows_value room
  constructor
  · intro hread
    rw [read_eq] at hread
    obtain ⟨before,hbefore,htext⟩ := skipLayout_split text
    split at hread
    · cases hread
    · rename_i value rest hvalue
      split_ifs at hread with hempty
      cases hread
      obtain ⟨taken,htaken,hsplit⟩ := hp.spelled hvalue
      obtain ⟨after,hafter,hrest⟩ := skipLayout_split rest
      rw [List.isEmpty_iff.mp hempty, List.append_nil] at hrest
      exact ⟨room,before,taken,after,hbefore,htaken,hafter,by rw [htext, hsplit, hrest]⟩
  · rintro ⟨depth,before,inner,after,hbefore,hinner,hafter,rfl⟩
    rcases hinner.or_exceeds room with hinner | hexceeds
    · exact read_of_spells ⟨before,inner,after,hbefore,hinner,hafter,rfl⟩
    · exact absurd ⟨before,inner ++ after,hbefore,hexceeds after,rfl⟩ h

end WebAtlas.Json
