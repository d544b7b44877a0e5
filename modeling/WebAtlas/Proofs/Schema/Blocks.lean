import WebAtlas.Proofs.Schema.Opening

/-! # Scans of blocks

Both passes over a text find an entity block where it stands and go on behind it. No declaration
starts in the blanks between blocks, in a foreign block, or in a body in which each line has something
that is no part of a header before its first opening brace.
-/
namespace WebAtlas.Schema
open Text
variable {keywords : List String} {lead body rest front back : List Char} {o : Opening}
  {last : Option Char}

/-- Without line ends, semicolons and closing braces. -/
def Inline (text : List Char) : Prop := ∀ c ∈ text, c ≠ '\n' ∧ c ≠ ';' ∧ c ≠ '}'

instance : DecidablePred Inline := fun text => List.decidableBAll _ text

/-- A line on whose opening braces no header ends. -/
def Shielded (line : List Char) : Prop :=
  '{' ∈ line → ∃ c ∈ line.takeWhile (· != '{'), isBlank c = false ∧ isWordChar c = false

theorem shielded_of_not_mem {line : List Char} (h : '{' ∉ line) : Shielded line := fun hmem =>
  absurd hmem h

theorem Shielded.append (hf : Shielded front) (hb : Shielded back) : Shielded (front ++ back) := by
  intro hmem
  by_cases hopen : '{' ∈ front
  · obtain ⟨c,hc,hplain⟩ := hf hopen
    obtain ⟨x,y,rfl,hx⟩ := List.eq_append_cons_of_mem hopen
    rw [takeWhile_bne hx] at hc
    rw [List.append_assoc, List.cons_append, takeWhile_bne hx]
    exact ⟨c,hc,hplain⟩
  · obtain ⟨c,hc,hplain⟩ := hb ((List.mem_append.mp hmem).resolve_left hopen)
    rw [List.takeWhile_append_of_pos (bne_of_not_mem hopen)]
    exact ⟨c,List.mem_append_right _ hc,hplain⟩

theorem shielded_flatMap {α : Type} {parts : List α} {f : α → List Char}
    (h : ∀ a ∈ parts, Shielded (f a)) : Shielded (parts.flatMap f) := by
  induction parts with
  | nil => exact shielded_of_not_mem List.not_mem_nil
  | cons a parts ih =>
    obtain ⟨ha,hparts⟩ := List.forall_mem_cons.mp h
    exact ha.append (ih hparts)

/-- Nothing behind a character that is no part of a header takes the shield away. -/
theorem shielded_behind {c : Char} (hf : '{' ∉ front) (hblank : isBlank c = false)
    (hword : isWordChar c = false) (hc : c ≠ '{') (back : List Char) :
    Shielded (front ++ c :: back) := by
  intro _
  refine ⟨c,?_,hblank,hword⟩
  rw [List.takeWhile_append_of_pos (bne_of_not_mem hf), List.takeWhile_cons_of_pos (by simpa using hc)]
  simp

/-- A body that its closing brace ends, with shielded lines. -/
structure Guarded (body : List Char) : Prop where
  closing : '}' ∉ body
  shielded : ∀ front c back, body = front ++ c :: back → c = '\n' ∨ c = ';' → Shielded back

theorem guarded_line (h : Inline front) : Guarded front := by
  refine ⟨fun hc => (h _ hc).2.2 rfl,fun x c y heq hc => ?_⟩
  obtain ⟨hnewline,hsemicolon,-⟩ := h c (by simp [heq])
  exact absurd hc (by simp [hnewline, hsemicolon])

theorem Guarded.cons_line {separator : Char} (h : Inline front)
    (hs : separator = '\n' ∨ separator = ';') (hb : Guarded back) (hshielded : Shielded back) :
    Guarded (front ++ separator :: back) := by
  have hline := guarded_line h
  constructor
  · intro hc
    rcases List.mem_append.mp hc with hc | hc
    · exact hline.closing hc
    · rcases List.mem_cons.mp hc with rfl | hc
      · rcases hs with hs | hs <;> cases hs
      · exact hb.closing hc
  · intro x c y heq hc
    rcases List.append_eq_append_iff.mp heq with ⟨z,rfl,hz⟩ | ⟨z,rfl,hz⟩
    · cases z with
      | nil =>
        obtain ⟨-,rfl⟩ := List.cons.inj hz
        exact hshielded
      | cons d z => exact hb.shielded z c y (List.cons.inj hz).2 hc
    · cases z with
      | nil =>
        obtain ⟨-,rfl⟩ := List.cons.inj hz
        exact hshielded
      | cons d z =>
        obtain ⟨rfl,-⟩ := List.cons.inj hz
        obtain ⟨hnewline,hsemicolon,-⟩ := h c (by simp)
        exact absurd hc (by simp [hnewline, hsemicolon])

theorem header_eq_none_of_shielded (hk : WordKeywords keywords) (h : Shielded body)
    (rest : List Char) : header keywords (body ++ '}' :: rest) = none := by
  by_cases hopen : '{' ∈ body
  · obtain ⟨c,hc,hblank,hword⟩ := h hopen
    obtain ⟨front,back,rfl,hfront⟩ := List.eq_append_cons_of_mem hopen
    rw [takeWhile_bne hfront] at hc
    rw [List.append_assoc]
    exact header_eq_none_of_mem hk hfront hc hblank hword _
  · exact header_eq_none_of_closing hk hopen rest

theorem Silent.block (hk : WordKeywords keywords)
    (h : Silent mayStart (header keywords) last front rest) :
    Silent mayStart (block keywords) last front rest := fun x y heq hne hallowed =>
  block_eq_none hk (h x y heq hne hallowed)

theorem silent_lead (hk : WordKeywords keywords) (hblank : Blank lead)
    (hend : lead = [] ∨ lead.getLast? = some '\n') (ho : o.WellFormed) :
    Silent mayStart (header keywords) last lead (o.text ++ '{' :: rest) := by
  intro front back heq hne _
  subst heq
  have hnewline : '\n' ∈ back := by
    rcases hend with hnil | hlast
    · simp [hne] at hnil
    · obtain rfl | ⟨back,c,rfl⟩ := List.eq_nil_or_concat back
      · exact absurd rfl hne
      · have hc : c = '\n' := by simpa using hlast
        simp [hc]
  have hback : Blank back := fun c hc => hblank c (List.mem_append_right _ hc)
  have hopen : '{' ∉ back ++ o.text := ((plain_of_blank hback).append ho.plain_text).open_not_mem
  rw [Option.eq_none_iff_forall_ne_some, ← List.append_assoc]
  rintro ⟨name,behind⟩ h
  obtain ⟨-,indent,o',hindent,ho',-,hsplit,-⟩ := words_of_header hk hopen h
  -- the blanks at the front are the indent, and an indent does not go over a line end
  have hindentEq : back = indent := by
    rw [← takeWhile_append hback ho.keyword.head?, ← Opening.text, hsplit, Opening.text,
      takeWhile_append hindent.blank ho'.keyword.head?]
  rcases hindent _ (hindentEq ▸ hnewline) with h | h <;> revert h <;> decide

theorem silent_foreign (hk : WordKeywords keywords) (ho : o.WellFormed)
    (hforeign : o.isEntity keywords = false) :
    Silent mayStart (header keywords) last (o.text ++ ['{']) rest := by
  have hnone : header keywords (o.text ++ '{' :: rest) = none := by
    rw [header_opening hk ho, hforeign]
    rfl
  rw [Opening.text, List.append_assoc]
  apply silent_append
  -- within the first word nothing may start; behind it one word at most is left before the brace
  · apply silent_of_first
    · simpa [Opening.text] using hnone
    · intro c hc
      have hmem := (List.dropLast_prefix _).subset hc
      have hplain := ho.plain c hmem
      have hnewline : c ≠ '\n' := by
        rintro rfl
        have hblank := ho.keyword.2 _ hmem
        revert hblank
        decide
      simp [mayStart, hplain, hnewline]
  · intro front back heq hne _
    obtain rfl | ⟨back,c,rfl⟩ := List.eq_nil_or_concat back
    · exact absurd rfl hne
    have hsplit : o.gap ++ (o.name ++ o.space) ++ ['{'] = front ++ back ++ [c] := by
      rw [heq, List.concat_eq_append, List.append_assoc]
    obtain ⟨htext,hc⟩ := List.append_inj' hsplit rfl
    obtain rfl := (List.cons.inj hc).1
    have hopen : '{' ∉ back := by
      intro hmem
      have hplain := ho.plain_text '{' (by
        rw [Opening.text, htext]
        simp [hmem])
      exact hplain.1 rfl
    have hwords := length_words_le front back []
    rw [← htext, ← words, ho.words_name, List.length_singleton] at hwords
    rw [List.concat_eq_append, List.append_assoc]
    exact header_eq_none_of_words hk hopen hwords rest

theorem silent_body (hk : WordKeywords keywords) (hbody : Guarded body) :
    Silent mayStart (header keywords) (some '{') (body ++ ['}']) rest := by
  apply silent_append
  -- a header may start behind a line end or a semicolon only, where what follows is shielded
  · intro front back heq hne hallowed
    obtain rfl | ⟨front,c,rfl⟩ := List.eq_nil_or_concat front
    · cases hallowed
    rw [List.concat_eq_append] at heq hallowed
    have hc : c = '\n' ∨ c = ';' := by
      have hclosing : c ≠ '}' := by
        rintro rfl
        exact hbody.closing (by simp [heq])
      simpa [lastOf, mayStart, hclosing] using hallowed
    rw [List.append_assoc, List.singleton_append] at heq
    exact header_eq_none_of_shielded hk (hbody.shielded front c back heq hc) rest
  · exact silent_of_first (header_eq_none_of_closing hk List.not_mem_nil rest) (by simp)

theorem mayStart_lead (hlast : mayStart last = true)
    (hend : lead = [] ∨ lead.getLast? = some '\n') : mayStart (lastOf last lead) = true := by
  rcases hend with rfl | hend
  · exact hlast
  · rw [lastOf, hend]
    rfl

theorem lastOf_closing (last : Option Char) (front : List Char) :
    lastOf last (front ++ ['}']) = some '}' := by
  simp [lastOf]

variable (hk : WordKeywords keywords) (hlast : mayStart last = true) (hblank : Blank lead)
  (hend : lead = [] ∨ lead.getLast? = some '\n') (ho : o.WellFormed) (hbody : Guarded body)
include hk hlast hblank hend ho hbody

/-- The first pass takes the name of an entity block. -/
theorem matchesFrom_header_block (rest : List Char) :
    matchesFrom mayStart (header keywords) last 0
        (lead ++ (o.text ++ '{' :: (body ++ '}' :: rest))) =
      (if o.isEntity keywords = true then [o.name] else []) ++
        matchesFrom mayStart (header keywords) (some '}') 0 rest := by
  rw [matchesFrom_silent (silent_lead hk hblank hend ho)]
  have hopening : o.text ++ '{' :: (body ++ '}' :: rest) =
      (o.text ++ ['{']) ++ ((body ++ ['}']) ++ rest) := by simp
  have hbehind : ∀ last, lastOf last (o.text ++ ['{']) = some '{' := fun last => by simp [lastOf]
  have hsilent : matchesFrom mayStart (header keywords) (some '{') 0 ((body ++ ['}']) ++ rest) =
      matchesFrom mayStart (header keywords) (some '}') 0 rest := by
    rw [matchesFrom_silent (silent_body hk hbody), lastOf_closing]
  rw [hopening]
  split
  · rename_i hentity
    have hread : header keywords ((o.text ++ ['{']) ++ ((body ++ ['}']) ++ rest)) =
        some (o.name,(body ++ ['}']) ++ rest) := by
      rw [List.append_assoc, List.singleton_append, header_opening hk ho, if_pos hentity]
    rw [matchesFrom_match (mayStart_lead hlast hend) (by simp) hread, hbehind, hsilent]
    rfl
  · rename_i hforeign
    rw [matchesFrom_silent (silent_foreign hk ho (by simpa using hforeign)), hbehind, hsilent]
    rfl

/-- The second pass takes the name and the body of an entity block. -/
theorem matchesFrom_block (rest : List Char) :
    matchesFrom mayStart (block keywords) last 0
        (lead ++ (o.text ++ '{' :: (body ++ '}' :: rest))) =
      (if o.isEntity keywords = true then [(o.name,body)] else []) ++
        matchesFrom mayStart (block keywords) (some '}') 0 rest := by
  rw [matchesFrom_silent (Silent.block hk (silent_lead hk hblank hend ho))]
  split
  · rename_i hentity
    have hopening : o.text ++ '{' :: (body ++ '}' :: rest) =
        ((o.text ++ '{' :: body) ++ ['}']) ++ rest := by simp
    have hread := block_of_opening hk ho hentity hbody.closing rest
    rw [hopening] at hread ⊢
    rw [matchesFrom_match (mayStart_lead hlast hend) (by simp) hread, lastOf_closing]
    rfl
  · rename_i hforeign
    have hopening : o.text ++ '{' :: (body ++ '}' :: rest) =
        (o.text ++ ['{']) ++ ((body ++ ['}']) ++ rest) := by simp
    have hbehind : lastOf (lastOf last lead) (o.text ++ ['{']) = some '{' := by simp [lastOf]
    rw [hopening, matchesFrom_silent (Silent.block hk (silent_foreign hk ho (by simpa using hforeign))),
      hbehind, matchesFrom_silent (Silent.block hk (silent_body hk hbody)), lastOf_closing]
    rfl

end WebAtlas.Schema
