import WebAtlas.Proofs.Json.Grammar
import WebAtlas.Text.Utf8

/-! # Line ends between the parts of a text

A text spells the same value when its line ends are written otherwise: they stand between parts only,
since a string holds none of them as such.
-/
namespace WebAtlas.Json
variable {text text' before behind : List Char} {v : Parsed} {depth room : Nat}

def IsLineEnd (c : Char) : Prop := c = '\r' ∨ c = '\n'

instance : DecidablePred IsLineEnd := fun _ => inferInstanceAs (Decidable (_ ∨ _))

/-- Two texts that differ in the characters of their line ends only. -/
inductive Relined : List Char → List Char → Prop
  | nil : Relined [] []
  | keep {c : Char} {text text' : List Char} (hc : ¬ IsLineEnd c) (h : Relined text text') :
    Relined (c :: text) (c :: text')
  | replace {c : Char} {ends text text' : List Char} (hc : IsLineEnd c) (hends : ∀ e ∈ ends, IsLineEnd e)
    (h : Relined text text') : Relined (c :: text) (ends ++ text')

/-- A kind of texts for which the way that line ends are written does not matter. -/
def Unaffected (kind : List Char → Prop) : Prop :=
  ∀ text text', kind text → Relined text text' → kind text'

/-- Texts without line ends. -/
def Unbroken (kind : List Char → Prop) : Prop := ∀ text, kind text → ∀ c ∈ text, ¬ IsLineEnd c

theorem Relined.split (h : Relined (before ++ behind) text') : ∃ before' behind',
    text' = before' ++ behind' ∧ Relined before before' ∧ Relined behind behind' := by
  induction before generalizing text' with
  | nil => exact ⟨[],text',rfl,.nil,h⟩
  | cons c before ih =>
    rw [List.cons_append] at h
    generalize htext : c :: (before ++ behind) = text at h
    cases h with
    | nil => cases htext
    | keep hc h =>
      obtain ⟨rfl,rfl⟩ := List.cons.inj htext
      obtain ⟨before',behind',rfl,hbefore,hbehind⟩ := ih h
      exact ⟨c :: before',behind',rfl,.keep hc hbefore,hbehind⟩
    | replace hc hends h =>
      obtain ⟨rfl,rfl⟩ := List.cons.inj htext
      obtain ⟨before',behind',rfl,hbefore,hbehind⟩ := ih h
      exact ⟨_,behind',(List.append_assoc ..).symm,.replace hc hends hbefore,hbehind⟩

theorem Relined.eq (h : Relined text text') (hfree : ∀ c ∈ text, ¬ IsLineEnd c) : text' = text := by
  induction h with
  | nil => rfl
  | keep hc _ ih => rw [ih fun c hmem => hfree c (List.mem_cons_of_mem _ hmem)]
  | replace hc => exact absurd hc (hfree _ List.mem_cons_self)

theorem Relined.cons {c : Char} (hc : ¬ IsLineEnd c) (h : Relined (c :: text) text') :
    ∃ behind', text' = c :: behind' ∧ Relined text behind' := by
  cases h with
  | keep _ h => exact ⟨_,rfl,h⟩
  | replace hend => exact absurd hend hc

theorem Unbroken.unaffected {kind : List Char → Prop} (h : Unbroken kind) : Unaffected kind := by
  intro text text' hkind hrelined
  rwa [hrelined.eq (h text hkind)]

theorem unaffected_layout : Unaffected Layout := by
  intro text text' hlayout h
  induction h with
  | nil => exact hlayout
  | keep _ _ ih =>
    obtain ⟨hc,hrest⟩ := List.forall_mem_cons.mp hlayout
    exact List.forall_mem_cons.mpr ⟨hc,ih hrest⟩
  | replace _ hends _ ih =>
    refine List.forall_mem_append.mpr ⟨fun e he => ?_,ih (List.forall_mem_cons.mp hlayout).2⟩
    rcases hends e he with rfl | rfl <;> rfl

theorem hexValue?_unbroken {c : Char} {n : Nat} (h : hexValue? c = some n) : ¬ IsLineEnd c := by
  rintro (rfl | rfl) <;> cases h

theorem unbroken_units {units : List Nat} : Unbroken (Units units) := by
  intro text h
  have hslash : ¬ IsLineEnd '\\' := by decide
  have hcode : ¬ IsLineEnd 'u' := by decide
  induction h with
  | nil => exact nofun
  | plain _ _ hcontrol _ ih =>
    refine List.forall_mem_cons.mpr ⟨?_,ih⟩
    rintro (rfl | rfl) <;> exact absurd hcontrol (by decide)
  | letter he _ ih =>
    refine List.forall_mem_cons.mpr ⟨hslash,List.forall_mem_cons.mpr ⟨?_,ih⟩⟩
    rintro (rfl | rfl) <;> cases he
  | code ha hb hc hd _ ih =>
    simp only [List.forall_mem_cons]
    exact ⟨hslash,hcode,hexValue?_unbroken ha,hexValue?_unbroken hb,hexValue?_unbroken hc,
      hexValue?_unbroken hd,ih⟩

theorem unbroken_quoted {value : CodePoints} : Unbroken (Quoted value) := by
  have hquote : ¬ IsLineEnd '"' := by decide
  rintro text ⟨units,inside,hunits,-,rfl⟩
  exact List.forall_mem_cons.mpr ⟨hquote,List.forall_mem_append.mpr
    ⟨unbroken_units inside hunits,List.forall_mem_singleton.mpr hquote⟩⟩

theorem unbroken_digits : Unbroken Digits := by
  rintro text ⟨-,hdigits⟩ c hc (rfl | rfl)
  all_goals cases hdigits _ hc

theorem unbroken_minus : Unbroken Minus := by
  rintro text (rfl | rfl) <;> simp [IsLineEnd]

theorem unbroken_whole : Unbroken Whole := by
  rintro text (rfl | ⟨hdigits,-⟩)
  · simp [IsLineEnd]
  · exact unbroken_digits text hdigits

theorem unbroken_fraction : Unbroken Fraction := by
  rintro text (rfl | ⟨digits,hdigits,rfl⟩)
  · exact nofun
  · exact List.forall_mem_cons.mpr ⟨by decide,unbroken_digits digits hdigits⟩

theorem unbroken_exponent : Unbroken Exponent := by
  rintro text (rfl | ⟨e,sign,digits,he,hsign,hdigits,rfl⟩)
  · exact nofun
  · refine List.forall_mem_cons.mpr ⟨?_,List.forall_mem_append.mpr ⟨?_,unbroken_digits digits hdigits⟩⟩
    · rcases he with rfl | rfl <;> decide
    · rcases hsign with rfl | rfl | rfl <;> simp [IsLineEnd]

theorem unbroken_number : Unbroken (Number v) := by
  intro text h
  cases h with
  | integer hs hw =>
    exact List.forall_mem_append.mpr ⟨unbroken_minus _ hs,unbroken_whole _ hw⟩
  | decimal hs hw hf he =>
    simp only [List.forall_mem_append]
    exact ⟨⟨⟨unbroken_minus _ hs,unbroken_whole _ hw⟩,unbroken_fraction _ hf⟩,unbroken_exponent _ he⟩

theorem unbroken_atom : Unbroken (Atom v) := by
  have hwords : ∀ m ∈ wordValues.map Prod.fst, ∀ c ∈ m.toList, ¬ IsLineEnd c := by
    simp [wordValues, IsLineEnd]
  intro text h
  cases h with
  | string h => exact unbroken_quoted text h
  | scalar h =>
    cases h with
    | word hword => exact hwords _ (List.mem_map_of_mem hword)
    | number h => exact unbroken_number text h

section containers
variable {α : Type} {spells : α → List Char → Prop} {begins kind : List Char → Prop}

theorem unaffected_padded (hp : ∀ value, Unaffected (spells value)) (value : α) :
    Unaffected (Padded spells value) := by
  rintro _ _ ⟨before,inner,after,hbefore,hinner,hafter,rfl⟩ h
  obtain ⟨before',_,rfl,hb,hbehind⟩ := h.split
  obtain ⟨inner',after',rfl,hi,ha⟩ := hbehind.split
  exact ⟨before',inner',after',unaffected_layout _ _ hbefore hb,hp value _ _ hinner hi,
    unaffected_layout _ _ hafter ha,rfl⟩

theorem unaffected_parts (hp : ∀ value, Unaffected (spells value)) (values : List α) :
    Unaffected (Parts spells values) := by
  intro text text' hparts h
  induction hparts generalizing text' with
  | last hpart => exact .last (unaffected_padded hp _ _ _ hpart h)
  | more hpart _ ih =>
    obtain ⟨part',_,rfl,hp',hcomma⟩ := h.split
    obtain ⟨behind',rfl,hbehind⟩ := hcomma.cons (by decide)
    exact .more (unaffected_padded hp _ _ _ hpart hp') (ih _ hbehind)

theorem unaffected_bracketed {opening close : Char} (ho : ¬ IsLineEnd opening) (hc : ¬ IsLineEnd close)
    (hp : ∀ value, Unaffected (spells value)) (values : List α) :
    Unaffected (Bracketed opening close spells values) := by
  rintro _ _ ⟨inside,hinside,rfl⟩ h
  obtain ⟨_,rfl,hopened⟩ := h.cons ho
  obtain ⟨inside',_,rfl,hi,hclosing⟩ := hopened.split
  obtain ⟨_,rfl,hend⟩ := hclosing.cons hc
  rw [hend.eq nofun]
  exact ⟨inside',hinside.imp (And.imp_right fun hl => unaffected_layout _ _ hl hi)
    fun hparts => unaffected_parts hp values _ _ hparts hi,rfl⟩

theorem unaffected_named (hk : Unaffected kind) (name : CodePoints) : Unaffected (Named kind name) := by
  rintro _ _ ⟨written,after,before,value,hname,hafter,hbefore,hvalue,rfl⟩ h
  obtain ⟨written',_,rfl,hw,hbehind⟩ := h.split
  obtain ⟨after',_,rfl,ha,hcolon⟩ := hbehind.split
  obtain ⟨_,rfl,hpadded⟩ := hcolon.cons (by decide)
  obtain ⟨before',value',rfl,hb,hv⟩ := hpadded.split
  exact ⟨written',after',before',value',unbroken_quoted.unaffected _ _ hname hw,
    unaffected_layout _ _ hafter ha,unaffected_layout _ _ hbefore hb,hk _ _ hvalue hv,rfl⟩

theorem unaffected_reaches (hp : ∀ value, Unaffected (spells value)) (hb : Unaffected begins) :
    Unaffected (Reaches spells begins) := by
  intro text text' hreaches h
  induction hreaches generalizing text' with
  | here hbefore hbegins =>
    obtain ⟨before',behind',rfl,hl,hbehind⟩ := h.split
    exact .here (unaffected_layout _ _ hbefore hl) (hb _ _ hbegins hbehind)
  | later hpart _ ih =>
    obtain ⟨part',_,rfl,hp',hcomma⟩ := h.split
    obtain ⟨behind',rfl,hbehind⟩ := hcomma.cons (by decide)
    exact .later (unaffected_padded hp _ _ _ hpart hp') (ih _ hbehind)

end containers

theorem unaffected_spells (depth : Nat) (v : Parsed) : Unaffected (Spells depth v) := by
  induction depth generalizing v with
  | zero => exact unbroken_atom.unaffected
  | succ depth ih =>
    have hmember : ∀ m, Unaffected (Member (Spells depth) m) := fun m => unaffected_named (ih m.2) m.1
    rintro text text' (hatom | ⟨items,rfl,hitems⟩ | ⟨members,rfl,hmembers⟩) h
    · exact .inl (unbroken_atom.unaffected _ _ hatom h)
    · exact .inr (.inl ⟨items,rfl,unaffected_bracketed (by decide) (by decide) ih items _ _ hitems h⟩)
    · exact .inr (.inr ⟨members,rfl,
        unaffected_bracketed (by decide) (by decide) hmember members _ _ hmembers h⟩)

theorem unaffected_exceeds (depth : Nat) : Unaffected (Exceeds depth) := by
  induction depth with
  | zero =>
    rintro text text' ⟨behind,rfl | rfl⟩ h
    all_goals
      obtain ⟨behind',rfl,-⟩ := h.cons (by decide)
    · exact ⟨behind',.inl rfl⟩
    · exact ⟨behind',.inr rfl⟩
  | succ depth ih =>
    have hmember : ∀ m, Unaffected (Member (Spells depth) m) := fun m =>
      unaffected_named (unaffected_spells depth m.2) m.1
    have hbegins : Unaffected fun text => ∃ name, Named (Exceeds depth) name text := by
      rintro text text' ⟨name,hname⟩ h
      exact ⟨name,unaffected_named ih name _ _ hname h⟩
    rintro text text' (⟨inside,rfl,hinside⟩ | ⟨inside,rfl,hinside⟩) h
    · obtain ⟨inside',rfl,hi⟩ := h.cons (by decide)
      exact .inl ⟨inside',rfl,unaffected_reaches (unaffected_spells depth) ih _ _ hinside hi⟩
    · obtain ⟨inside',rfl,hi⟩ := h.cons (by decide)
      exact .inr ⟨inside',rfl,unaffected_reaches hmember hbegins _ _ hinside hi⟩

theorem unaffected_document (v : Parsed) : Unaffected (Document v) := by
  rintro text text' ⟨depth,hdocument⟩ h
  exact ⟨depth,unaffected_padded (unaffected_spells depth) v _ _ hdocument h⟩

theorem unaffected_tooDeep (room : Nat) : Unaffected (TooDeep room) := by
  rintro _ _ ⟨before,value,hbefore,hvalue,rfl⟩ h
  obtain ⟨before',value',rfl,hb,hv⟩ := h.split
  exact ⟨before',value',unaffected_layout _ _ hbefore hb,unaffected_exceeds _ _ _ hvalue hv,rfl⟩

theorem relined_unifyLineEnds (text : List Char) :
    Relined text (Utf8.unifyLineEnds text) ∧ Relined (Utf8.unifyLineEnds text) text := by
  have hreturn : IsLineEnd '\r' := .inl rfl
  have hfeed : IsLineEnd '\n' := .inr rfl
  induction text using Utf8.unifyLineEnds.induct with
  | case1 => exact ⟨.nil,.nil⟩
  | case2 text ih =>
    rw [Utf8.unifyLineEnds]
    have hone : Relined ('\n' :: text) ('\n' :: Utf8.unifyLineEnds text) :=
      @Relined.replace _ ['\n'] _ _ hfeed (List.forall_mem_singleton.mpr hfeed) ih.1
    have htwo : ∀ e ∈ ['\r','\n'], IsLineEnd e := by simp [IsLineEnd]
    exact ⟨@Relined.replace _ [] _ _ hreturn nofun hone,@Relined.replace _ ['\r','\n'] _ _ hfeed htwo ih.2⟩
  | case3 c text hnext ih =>
    rw [Utf8.unifyLineEnds.eq_3 _ _ hnext]
    by_cases hc : IsLineEnd c
    · have hunified : IsLineEnd (if c = '\r' then '\n' else c) := by
        split_ifs
        · exact hfeed
        · exact hc
      exact ⟨@Relined.replace _ [_] _ _ hc (List.forall_mem_singleton.mpr hunified) ih.1,
        @Relined.replace _ [_] _ _ hunified (List.forall_mem_singleton.mpr hc) ih.2⟩
    · rw [if_neg fun h => hc (.inl h)]
      exact ⟨.keep hc ih.1,.keep hc ih.2⟩

theorem document_unifyLineEnds : Document v (Utf8.unifyLineEnds text) ↔ Document v text :=
  have hrelined := relined_unifyLineEnds text
  ⟨fun h => unaffected_document v _ _ h hrelined.2,fun h => unaffected_document v _ _ h hrelined.1⟩

theorem tooDeep_unifyLineEnds : TooDeep room (Utf8.unifyLineEnds text) ↔ TooDeep room text :=
  have hrelined := relined_unifyLineEnds text
  ⟨fun h => unaffected_tooDeep room _ _ h hrelined.2,fun h => unaffected_tooDeep room _ _ h hrelined.1⟩

end WebAtlas.Json
