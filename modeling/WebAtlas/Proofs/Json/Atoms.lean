import WebAtlas.Proofs.Json.Grammar
import Mathlib.Data.Option.Basic

/-! # Reading strings, numbers and words

Each of these readers takes what the grammar spells, whatever may follow it, and nothing else.
-/
namespace WebAtlas.Json
variable {v : Parsed} {text rest : List Char}

theorem readUnits_plain {c : Char} (hquote : c ≠ '"') (hslash : c ≠ '\\') (hcontrol : 0x20 ≤ c.toNat) :
    readUnits (c :: rest) = (readUnits rest).map fun read => (c.toNat :: read.1,read.2) := by
  have hguard : (0x20 ≤ c.toNat && c != '\\') = true := by simp [hslash, hcontrol]
  rw [readUnits.eq_5 c rest hquote (fun _ _ _ _ _ h _ => hslash h) (fun _ _ h _ => hslash h), hguard]
  cases readUnits rest <;> rfl

theorem readUnits_letter {e value : Char} (he : escapeValue? e = some value) :
    readUnits ('\\' :: e :: rest) = (readUnits rest).map fun read => (value.toNat :: read.1,read.2) := by
  have hcode : ∀ a b c d behind, e = 'u' → rest = a :: b :: c :: d :: behind → False := by
    rintro a b c d behind rfl
    cases he
  rw [readUnits.eq_4 e rest hcode, he]
  cases readUnits rest <;> rfl

theorem Units.read {units : List Nat} {inside : List Char} (h : Units units inside) (rest : List Char) :
    readUnits (inside ++ '"' :: rest) = some (units,rest) := by
  induction h with
  | nil => rfl
  | plain hquote hslash hcontrol _ ih =>
    rw [List.cons_append, readUnits_plain hquote hslash hcontrol, ih]
    rfl
  | letter he _ ih =>
    rw [List.cons_append, List.cons_append, readUnits_letter he, ih]
    rfl
  | code ha hb hc hd _ ih => simp [readUnits, ha, hb, hc, hd, ih]

theorem units_of_read {units : List Nat} (h : readUnits text = some (units,rest)) :
    ∃ inside, Units units inside ∧ text = inside ++ '"' :: rest := by
  fun_induction readUnits text generalizing units with
  | case1 => cases h
  | case2 =>
    cases h
    exact ⟨[],.nil,rfl⟩
  | case3 a b c d behind ih =>
    simp only [bind, Option.bind_eq_some_iff] at h
    obtain ⟨i,ha,j,hb,k,hc,l,hd,⟨units,rest⟩,hread,heq⟩ := h
    cases heq
    obtain ⟨inside,hinside,rfl⟩ := ih hread
    exact ⟨_,.code ha hb hc hd hinside,rfl⟩
  | case4 e behind hcode ih =>
    simp only [bind, Option.bind_eq_some_iff] at h
    obtain ⟨value,he,⟨units,rest⟩,hread,heq⟩ := h
    cases heq
    obtain ⟨inside,hinside,rfl⟩ := ih hread
    exact ⟨_,.letter he hinside,rfl⟩
  | case5 c behind hquote _ _ ih =>
    simp only [bind, Option.bind_eq_some_iff] at h
    obtain ⟨⟨⟩,hguard,⟨units,rest⟩,hread,heq⟩ := h
    cases heq
    rw [Option.guard_eq_some'] at hguard
    obtain ⟨hcontrol,hslash⟩ : 0x20 ≤ c.toNat ∧ c ≠ '\\' := by simpa using hguard
    obtain ⟨inside,hinside,rfl⟩ := ih hread
    exact ⟨_,.plain hquote hslash hcontrol hinside,rfl⟩

theorem Quoted.read {value : CodePoints} (h : Quoted value text) :
    ∃ behind, text = '"' :: behind ∧ ∀ rest, readString (behind ++ rest) = .ok (value,rest) := by
  obtain ⟨units,inside,hunits,rfl,rfl⟩ := h
  refine ⟨_,rfl,fun rest => ?_⟩
  rw [List.append_assoc, List.singleton_append, readString, hunits.read]

theorem quoted_of_read {value : CodePoints} (h : readString text = .ok (value,rest)) :
    ∃ behind, Quoted value ('"' :: behind) ∧ text = behind ++ rest := by
  unfold readString at h
  split at h
  · rename_i units behind hread
    cases h
    obtain ⟨inside,hinside,rfl⟩ := units_of_read hread
    exact ⟨inside ++ ['"'],⟨_,_,hinside,rfl,rfl⟩,by simp⟩
  · cases h

/-- What may follow a value. -/
def Stops (rest : List Char) : Prop :=
  ∀ c ∈ rest.head?, isLayout c = true ∨ c = ',' ∨ c = ']' ∨ c = '}'

theorem Stops.of_cons {c : Char} (h : isLayout c = true ∨ c = ',' ∨ c = ']' ∨ c = '}') :
    Stops (c :: rest) := by
  rintro d hd
  cases hd
  exact h

/-- No character that may follow a value goes on with a number. -/
theorem Stops.head? (h : Stops rest) :
    ∀ c ∈ rest.head?, c.isDigit = false ∧ c ≠ '.' ∧ c ≠ 'e' ∧ c ≠ 'E' := by
  intro c hc
  have hstop : c = ' ' ∨ c = '\t' ∨ c = '\n' ∨ c = '\r' ∨ c = ',' ∨ c = ']' ∨ c = '}' := by
    simpa [isLayout, or_assoc] using h c hc
  rcases hstop with rfl | rfl | rfl | rfl | rfl | rfl | rfl <;> decide

theorem Whole.read {whole : List Char} (h : Whole whole)
    (hrest : ∀ c ∈ rest.head?, c.isDigit = false) : readWhole (whole ++ rest) = some (whole,rest) := by
  rcases h with rfl | ⟨⟨hne,hdigits⟩,hzero⟩
  · rfl
  · have hrun := Text.run_eq_some_iff.mpr ⟨hne,hdigits,rfl,hrest⟩
    obtain ⟨c,whole,rfl⟩ := List.exists_cons_of_ne_nil hne
    rw [List.cons_append, readWhole, ← List.cons_append, hrun]
    rintro behind heq
    cases heq
    exact hzero rfl

theorem whole_of_read {whole : List Char} (h : readWhole text = some (whole,rest)) :
    Whole whole ∧ text = whole ++ rest := by
  unfold readWhole at h
  split at h
  · cases h
    exact ⟨.inl rfl,rfl⟩
  · rename_i hzero
    obtain ⟨hne,hdigits,rfl,-⟩ := Text.run_eq_some_iff.mp h
    refine ⟨.inr ⟨⟨hne,hdigits⟩,fun hhead => ?_⟩,rfl⟩
    obtain ⟨behind,rfl⟩ := List.head?_eq_some_iff.mp hhead
    exact hzero _ rfl

theorem Digits.run {digits : List Char} (h : Digits digits)
    (hrest : ∀ c ∈ rest.head?, c.isDigit = false) :
    Text.run Char.isDigit (digits ++ rest) = some (digits,rest) :=
  Text.run_eq_some_iff.mpr ⟨h.1,h.2,rfl,hrest⟩

theorem digits_of_run {digits : List Char} (h : Text.run Char.isDigit text = some (digits,rest)) :
    Digits digits ∧ text = digits ++ rest :=
  have hrun := Text.run_eq_some_iff.mp h
  ⟨⟨hrun.1,hrun.2.1⟩,hrun.2.2.1⟩

theorem Fraction.read {fraction : List Char} (h : Fraction fraction)
    (hrest : ∀ c ∈ rest.head?, c.isDigit = false ∧ c ≠ '.') :
    readFraction (fraction ++ rest) = (fraction,rest) := by
  rcases h with rfl | ⟨digits,hdigits,rfl⟩
  · rw [List.nil_append]
    unfold readFraction
    split
    · exact absurd rfl (hrest _ rfl).2
    · rfl
  · rw [List.cons_append, readFraction, hdigits.run fun c hc => (hrest c hc).1]

theorem fraction_of_read {fraction : List Char} (h : readFraction text = (fraction,rest)) :
    Fraction fraction ∧ text = fraction ++ rest := by
  unfold readFraction at h
  split at h
  · split at h
    · rename_i digits behind hrun
      cases h
      obtain ⟨hdigits,rfl⟩ := digits_of_run hrun
      exact ⟨.inr ⟨digits,hdigits,rfl⟩,rfl⟩
    · cases h
      exact ⟨.inl rfl,rfl⟩
  · cases h
    exact ⟨.inl rfl,rfl⟩

/-- The sign that an exponent begins with, if any. -/
def leadingSign (text : List Char) : List Char :=
  (text.takeWhile fun c => c == '+' || c == '-').take 1

theorem leadingSign_cases (text : List Char) : ∃ behind, text = leadingSign text ++ behind ∧
    (leadingSign text = [] ∨ leadingSign text = ['+'] ∨ leadingSign text = ['-']) := by
  cases text with
  | nil => exact ⟨[],rfl,.inl rfl⟩
  | cons c text =>
    by_cases hc : (c == '+' || c == '-') = true
    · have hsign : leadingSign (c :: text) = [c] := by
        simp only [leadingSign, List.takeWhile_cons, hc, if_true, List.take_succ_cons, List.take_zero]
      refine ⟨text,by rw [hsign]; rfl,.inr ?_⟩
      rw [hsign]
      simpa using hc
    · have hsign : leadingSign (c :: text) = [] := by
        simp only [leadingSign, List.takeWhile_cons, hc, Bool.false_eq_true, if_false, List.take_nil]
      exact ⟨c :: text,by rw [hsign]; rfl,.inl hsign⟩

theorem leadingSign_append {sign : List Char} (hs : sign = [] ∨ sign = ['+'] ∨ sign = ['-'])
    (h : ∀ c ∈ text.head?, c ≠ '+' ∧ c ≠ '-') : leadingSign (sign ++ text) = sign := by
  have hstop : ∀ c ∈ text.head?, (c == '+' || c == '-') = false := by simpa using h
  have hsign : ∀ c ∈ sign, (c == '+' || c == '-') = true := by
    rcases hs with rfl | rfl | rfl <;> simp
  rw [leadingSign, Text.takeWhile_append hsign hstop]
  rcases hs with rfl | rfl | rfl <;> rfl

theorem readExponent_cons (e : Char) (text : List Char) : readExponent (e :: text) =
    if e = 'e' ∨ e = 'E' then
      match Text.run Char.isDigit (text.drop (leadingSign text).length) with
      | some (digits,after) => (e :: leadingSign text ++ digits,after)
      | none => ([],e :: text)
    else ([],e :: text) := by
  rw [readExponent]
  simp only [Bool.or_eq_true, decide_eq_true_eq]
  rfl

theorem Exponent.read {exponent : List Char} (h : Exponent exponent)
    (hrest : ∀ c ∈ rest.head?, c.isDigit = false ∧ c ≠ 'e' ∧ c ≠ 'E') :
    readExponent (exponent ++ rest) = (exponent,rest) := by
  rcases h with rfl | ⟨e,sign,digits,he,hsign,hdigits,rfl⟩
  · cases rest with
    | nil => rfl
    | cons c rest =>
      have hc := (hrest c rfl).2
      rw [List.nil_append, readExponent_cons, if_neg (by simpa using hc)]
  · have hdigit : ∀ c ∈ (digits ++ rest).head?, c ≠ '+' ∧ c ≠ '-' := by
      obtain ⟨d,digits,rfl⟩ := List.exists_cons_of_ne_nil hdigits.1
      intro c hc
      cases hc
      have hd := hdigits.2 d List.mem_cons_self
      constructor <;> rintro rfl <;> cases hd
    rw [List.cons_append, List.append_assoc, readExponent_cons, if_pos he,
      leadingSign_append hsign hdigit, List.drop_left, hdigits.run fun c hc => (hrest c hc).1]
    rfl

theorem exponent_of_read {exponent : List Char} (h : readExponent text = (exponent,rest)) :
    Exponent exponent ∧ text = exponent ++ rest := by
  cases text with
  | nil =>
    cases h
    exact ⟨.inl rfl,rfl⟩
  | cons e text =>
    rw [readExponent_cons] at h
    split at h
    · rename_i he
      obtain ⟨behind,htext,hsign⟩ := leadingSign_cases text
      split at h
      · rename_i digits after hrun
        cases h
        generalize leadingSign text = sign at *
        rw [htext, List.drop_left] at hrun
        obtain ⟨hdigits,rfl⟩ := digits_of_run hrun
        exact ⟨.inr ⟨e,sign,digits,he,hsign,hdigits,rfl⟩,by simp [htext]⟩
      · cases h
        exact ⟨.inl rfl,rfl⟩
    · cases h
      exact ⟨.inl rfl,rfl⟩

/-- The minus that a number begins with, if any. -/
def leadingMinus (text : List Char) : List Char := if text.head? = some '-' then ['-'] else []

theorem readNumber_eq (text : List Char) : readNumber text =
    match readWhole (text.drop (leadingMinus text).length) with
    | none => .error .malformed
    | some (whole,rest) =>
      let (fraction,rest) := readFraction rest
      let (exponent,rest) := readExponent rest
      if fraction.isEmpty && exponent.isEmpty then
        if digitLimit < whole.length then .error .hugeInteger
        else
          let value : Int := digitsValue whole
          .ok (.int (if (leadingMinus text).isEmpty then value else -value),rest)
      else .ok (.decimal (String.ofList (leadingMinus text ++ whole ++ fraction ++ exponent)),rest) := rfl

theorem leadingMinus_cases (text : List Char) :
    Minus (leadingMinus text) ∧ ∃ behind, text = leadingMinus text ++ behind := by
  unfold leadingMinus
  split
  · rename_i hminus
    obtain ⟨behind,rfl⟩ := List.head?_eq_some_iff.mp hminus
    exact ⟨.inr rfl,behind,rfl⟩
  · exact ⟨.inl rfl,text,rfl⟩

theorem leadingMinus_append {sign : List Char} (hs : Minus sign) (h : text.head? ≠ some '-') :
    leadingMinus (sign ++ text) = sign := by
  rcases hs with rfl | rfl
  · exact if_neg h
  · rfl

/-- A number begins with a digit, perhaps behind a minus. -/
theorem Whole.cons {whole : List Char} (h : Whole whole) :
    ∃ d behind, whole = d :: behind ∧ d.isDigit = true := by
  rcases h with rfl | ⟨⟨hne,hdigits⟩,-⟩
  · exact ⟨'0',[],rfl,rfl⟩
  · obtain ⟨d,behind,rfl⟩ := List.exists_cons_of_ne_nil hne
    exact ⟨d,behind,rfl,hdigits d List.mem_cons_self⟩

theorem Number.cons (h : Number v text) :
    ∃ sign d behind, Minus sign ∧ d.isDigit = true ∧ text = sign ++ d :: behind := by
  cases h with
  | @integer sign _ hs hw =>
    obtain ⟨d,behind,rfl,hd⟩ := hw.cons
    exact ⟨sign,d,behind,hs,hd,rfl⟩
  | @decimal sign _ fraction exponent hs hw =>
    obtain ⟨d,behind,rfl,hd⟩ := hw.cons
    exact ⟨sign,d,behind ++ fraction ++ exponent,hs,hd,by simp⟩

theorem Exponent.head? {exponent : List Char} (h : Exponent exponent) (hrest : Stops rest) :
    ∀ c ∈ (exponent ++ rest).head?, c.isDigit = false ∧ c ≠ '.' := by
  rcases h with rfl | ⟨e,sign,digits,he,-,-,rfl⟩
  · exact fun c hc => ⟨(hrest.head? c hc).1,(hrest.head? c hc).2.1⟩
  · intro c hc
    cases hc
    rcases he with rfl | rfl <;> decide

theorem Fraction.head? {fraction : List Char} (h : Fraction fraction)
    (hrest : ∀ c ∈ rest.head?, c.isDigit = false) : ∀ c ∈ (fraction ++ rest).head?, c.isDigit = false := by
  rcases h with rfl | ⟨digits,-,rfl⟩
  · exact hrest
  · intro c hc
    cases hc
    rfl

theorem Number.read (h : Number v text) (hrest : Stops rest) :
    readNumber (text ++ rest) = .ok (v,rest) := by
  have hsign : ∀ {sign whole behind : List Char}, Minus sign → Whole whole →
      leadingMinus (sign ++ (whole ++ behind)) = sign := by
    intro sign whole behind hs hw
    obtain ⟨d,digits,rfl,hd⟩ := hw.cons
    refine leadingMinus_append hs fun hminus => ?_
    cases hminus
    cases hd
  cases h with
  | integer hs hw hl =>
    have hmarks := hrest.head?
    have hfraction : readFraction rest = ([],rest) :=
      Fraction.read (.inl rfl) fun c hc => ⟨(hmarks c hc).1,(hmarks c hc).2.1⟩
    have hexponent : readExponent rest = ([],rest) :=
      Exponent.read (.inl rfl) fun c hc => ⟨(hmarks c hc).1,(hmarks c hc).2.2⟩
    rw [List.append_assoc, readNumber_eq, hsign hs hw, List.drop_left,
      hw.read fun c hc => (hmarks c hc).1]
    simp [hfraction, hexponent, Nat.not_lt.mpr hl]
  | @decimal sign whole fraction exponent hs hw hf he hne =>
    have hmarks := he.head? hrest
    have hfraction := hf.read hmarks
    have hexponent := he.read fun c hc => ⟨(hrest.head? c hc).1,(hrest.head? c hc).2.2⟩
    have hwhole := hw.read (hf.head? fun c hc => (hmarks c hc).1)
    have hsome : (fraction.isEmpty && exponent.isEmpty) = false := by
      simpa [imp_iff_not_or] using hne
    simp only [List.append_assoc] at hwhole ⊢
    rw [readNumber_eq, hsign hs hw, List.drop_left, hwhole]
    simp [hfraction, hexponent, hsome]

theorem number_of_read (h : readNumber text = .ok (v,rest)) :
    ∃ taken, Number v taken ∧ text = taken ++ rest := by
  obtain ⟨hminus,behind,htext⟩ := leadingMinus_cases text
  rw [readNumber_eq] at h
  generalize leadingMinus text = sign at *
  rw [htext, List.drop_left] at h
  split at h
  · cases h
  · rename_i whole behind' hwhole
    obtain ⟨hw,rfl⟩ := whole_of_read hwhole
    rcases hfraction : readFraction behind' with ⟨fraction,ahead⟩
    rcases hexponent : readExponent ahead with ⟨exponent,last⟩
    obtain ⟨hf,rfl⟩ := fraction_of_read hfraction
    obtain ⟨he,rfl⟩ := exponent_of_read hexponent
    simp only [hfraction, hexponent] at h
    split at h
    · rename_i hempty
      obtain ⟨rfl,rfl⟩ : fraction = [] ∧ exponent = [] := by simpa using hempty
      split at h
      · cases h
      · rename_i hl
        cases h
        exact ⟨_,.integer hminus hw (Nat.le_of_not_lt hl),by simp [htext]⟩
    · rename_i hempty
      cases h
      refine ⟨_,.decimal hminus hw hf he ?_,by simp [htext]⟩
      simpa [imp_iff_not_or] using hempty

/-- No word begins like a number. -/
theorem wordValues_digit {sign : List Char} {d : Char} (hs : Minus sign) (hd : d.isDigit = true) :
    (wordValues.findSome? fun (word,value) =>
      (Text.afterWord word.toList (sign ++ d :: rest)).map (value,·)) = none := by
  have hne : ∀ c ∈ ['n','t','f','N','I','-'], c ≠ d := by
    have hall : ∀ c ∈ ['n','t','f','N','I','-'], c.isDigit = false := by simp
    rintro c hc rfl
    simp [hall c hc] at hd
  simp only [List.mem_cons, List.not_mem_nil, or_false, forall_eq_or_imp, forall_eq] at hne
  rcases hs with rfl | rfl <;> simp [wordValues, Text.afterWord, hne]

theorem Scalar.read (h : Scalar v text) (hrest : Stops rest) :
    readScalar (text ++ rest) = .ok (v,rest) := by
  cases h with
  | word hword =>
    simp only [wordValues, List.mem_cons, Prod.mk.injEq, List.not_mem_nil, or_false] at hword
    rcases hword with ⟨rfl,rfl⟩ | ⟨rfl,rfl⟩ | ⟨rfl,rfl⟩ | ⟨rfl,rfl⟩ | ⟨rfl,rfl⟩ | ⟨rfl,rfl⟩ <;>
      simp [readScalar, wordValues, Text.afterWord]
  | number hnumber =>
    have hread := hnumber.read hrest
    obtain ⟨sign,d,behind,hs,hd,rfl⟩ := hnumber.cons
    rw [List.append_assoc, List.cons_append] at hread ⊢
    rw [readScalar, wordValues_digit hs hd]
    exact hread

theorem scalar_of_read (h : readScalar text = .ok (v,rest)) :
    ∃ taken, Scalar v taken ∧ text = taken ++ rest := by
  unfold readScalar at h
  split at h
  · rename_i result hfind
    cases h
    obtain ⟨⟨word,value⟩,hmem,hword⟩ := List.exists_of_findSome?_eq_some hfind
    obtain ⟨behind,hafter,heq⟩ := Option.map_eq_some_iff.mp hword
    cases heq
    exact ⟨_,.word hmem,Text.afterWord_eq_some_iff.mp hafter⟩
  · obtain ⟨taken,hnumber,htext⟩ := number_of_read h
    exact ⟨taken,.number hnumber,htext⟩

theorem readScalar_ne_nesting (text : List Char) (container : Container) :
    readScalar text ≠ .error (.nesting container) := by
  intro h
  unfold readScalar at h
  split at h
  · cases h
  · rw [readNumber_eq] at h
    split at h
    · cases h
    · dsimp only at h
      split at h
      · split at h <;> cases h
      · cases h

end WebAtlas.Json
