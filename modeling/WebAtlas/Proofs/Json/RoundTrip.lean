import WebAtlas.Json.Printer
import WebAtlas.Proofs.Json.Reading
import Mathlib.Data.Option.Basic

/-! # What is written is read back

A written value is read back as itself as long as its integers have no more digits and its containers
nest no deeper than the reader takes, since its text spells it. Texts are not restricted: each character
is escaped in a way that the reader undoes.
-/
namespace WebAtlas

theorem CodePoints.ofText_injective : Function.Injective ofText := by
  intro text text' h
  have hchars := CodePoints.mk.inj h
  rw [List.map_inj_right fun c d => Char.toNat_inj.mp] at hchars
  exact String.toList_injective hchars

namespace Json
variable {rest : List Char} {level depth : Nat}

theorem hexDigits_control : ∀ n < 0x20,
    Text.hexDigits 4 n = ['0','0',Nat.digitChar (n / 16),Nat.digitChar (n % 16)] ∧
    hexValue? (Nat.digitChar (n / 16)) = some (n / 16) ∧
    hexValue? (Nat.digitChar (n % 16)) = some (n % 16) := by
  decide

theorem units_escape (c : Char) {units : List Nat} {text : List Char} (h : Units units text) :
    Units (c.toNat :: units) (escape c ++ text) := by
  unfold escape
  split_ifs with hquote hslash hn hr ht hb hf hcontrol
  any_goals
    subst c
    exact .letter rfl h
  · obtain ⟨hdigits,hhigh,hlow⟩ := hexDigits_control c.toNat hcontrol
    have hzero : hexValue? '0' = some 0 := rfl
    have hunit : c.toNat / 16 * 16 + c.toNat % 16 = c.toNat := Nat.div_add_mod' ..
    have hcode := Units.code hzero hzero hhigh hlow h
    rw [hdigits]
    simpa [hunit] using hcode
  · exact .plain hquote hslash (Nat.le_of_not_lt hcontrol) h

theorem units_flatMap (text : List Char) : Units (text.map Char.toNat) (text.flatMap escape) := by
  induction text with
  | nil => exact .nil
  | cons c text ih => exact units_escape c ih

theorem not_surrogate (c : Char) : isHighSurrogate c.toNat = false := by
  have hvalid : c.toNat < 0xD800 ∨ 0xDFFF < c.toNat ∧ c.toNat < 0x110000 := c.valid
  unfold isHighSurrogate
  simp only [Bool.and_eq_false_iff, decide_eq_false_iff_not]
  omega

/-- No character is a surrogate, so none are joined. -/
theorem joinUnits_toNat (text : List Char) :
    joinUnits (text.map Char.toNat) = text.map Char.toNat := by
  induction text with
  | nil => rfl
  | cons c text ih =>
    have hhigh := not_surrogate c
    cases text with
    | nil => rfl
    | cons d text =>
      rw [List.map_cons, List.map_cons, joinUnits, ← List.map_cons, ih]
      simp [hhigh]

theorem quoted_quote (text : String) : Quoted (CodePoints.ofText text) (quote text) :=
  ⟨_,_,units_flatMap text.toList,by rw [joinUnits_toNat, CodePoints.ofText],rfl⟩

theorem readString_quote (text : String) :
    readString (text.toList.flatMap escape ++ '"' :: rest) = .ok (CodePoints.ofText text,rest) := by
  obtain ⟨behind,htext,hread⟩ := (quoted_quote text).read
  rw [← hread rest, ← (List.cons.inj htext).2]
  simp

/-- What may follow a value. -/
def Ends (rest : List Char) : Prop := ∀ c ∈ rest.head?, c = ',' ∨ c = '\n'

theorem Ends.head? (h : Ends rest) {accepts : Char → Bool} (hcomma : accepts ',' = false)
    (hline : accepts '\n' = false) : ∀ c ∈ rest.head?, accepts c = false := by
  intro c hc
  rcases h c hc with rfl | rfl
  · exact hcomma
  · exact hline

theorem digitsValue_toDigits (n : Nat) : digitsValue (Nat.toDigits 10 n) = n := by
  have h := @Nat.ofDigitChars_ten_toDigits n
  simpa only [Nat.ofDigitChars, digitsValue, Nat.mul_comm] using h

theorem head?_toDigits {n : Nat} (hn : 0 < n) : ∀ c ∈ (Nat.toDigits 10 n).head?, c ≠ '0' := by
  induction n using Nat.strong_induction_on with
  | h n ih =>
    by_cases hlt : n < 10
    · rw [Nat.toDigits_of_lt_base hlt]
      have hall : ∀ n < 10, 0 < n → Nat.digitChar n ≠ '0' := by decide
      intro c hc
      cases hc
      exact hall n hlt hn
    · have hdiv : 0 < n / 10 := by omega
      rw [Nat.toDigits_of_base_le (by decide) (Nat.le_of_not_lt hlt)]
      intro c hc
      rw [List.head?_append, Option.or_of_isSome (by simp [Nat.toDigits_ne_nil])] at hc
      exact ih (n / 10) (by omega) hdiv c hc

theorem whole_toDigits (n : Nat) : Whole (Nat.toDigits 10 n) := by
  rcases Nat.eq_zero_or_pos n with rfl | hn
  · exact .inl rfl
  · refine .inr ⟨⟨Nat.toDigits_ne_nil,fun c hc => ?_⟩,fun hzero => ?_⟩
    · exact Nat.isDigit_of_mem_toDigits (by decide) (by decide) hc
    · exact head?_toDigits hn _ hzero rfl

theorem readWhole_toDigits (h : ∀ c ∈ rest.head?, c.isDigit = false) (n : Nat) :
    readWhole (Nat.toDigits 10 n ++ rest) = some (Nat.toDigits 10 n,rest) := (whole_toDigits n).read h

theorem toDigits_cons (n : Nat) : ∃ d digits, Nat.toDigits 10 n = d :: digits ∧ d.isDigit = true := by
  obtain ⟨d,digits,hd⟩ := List.exists_cons_of_ne_nil (@Nat.toDigits_ne_nil n 10)
  exact ⟨d,digits,hd,Nat.isDigit_of_mem_toDigits (by decide) (by decide) (hd ▸ List.mem_cons_self)⟩

theorem toString_cases (n : Int) :
    (toString n).toList = '-' :: Nat.toDigits 10 n.natAbs ∧ -(n.natAbs : Int) = n ∨
    (toString n).toList = Nat.toDigits 10 n.natAbs ∧ (n.natAbs : Int) = n := by
  rw [Int.toString_eq_repr]
  cases n with
  | ofNat n => exact .inr ⟨Nat.toList_repr,rfl⟩
  | negSucc n => exact .inl ⟨by simp [Int.repr, String.toList_append],rfl⟩

theorem number_toString {n : Int} (hn : (Nat.toDigits 10 n.natAbs).length ≤ digitLimit) :
    Number (.int n) (toString n).toList := by
  have hwhole := whole_toDigits n.natAbs
  have htext := toString_cases n
  have hvalue := digitsValue_toDigits n.natAbs
  rcases htext with ⟨htext,hsign⟩ | ⟨htext,hsign⟩
  · have hnumber := Number.integer (.inr rfl) hwhole hn
    rw [hvalue, if_neg (by simp), hsign] at hnumber
    rwa [htext]
  · have hnumber := Number.integer (.inl rfl) hwhole hn
    rw [hvalue, if_pos (by simp), hsign] at hnumber
    rwa [htext]

theorem layout_lineStart (level : Nat) : Layout (lineStart level) := by
  intro c hc
  rcases List.mem_cons.mp hc with rfl | hc
  · rfl
  · rw [List.eq_of_mem_replicate hc]
    rfl

section parts
variable {α β : Type} {spells : β → List Char → Prop} {write : α → List Char} {parse : α → β}
  {close : Char} {value : α} {values : List α} {inner outer : Nat}

/-- The parts of a container after the first, and its end. -/
def tail (write : α → List Char) (close : Char) (inner outer : Nat) (values : List α)
    (rest : List Char) : List Char :=
  (values.flatMap fun v => ',' :: (lineStart inner ++ write v)) ++ (lineStart outer ++ close :: rest)

theorem tail_cons : tail write close inner outer (value :: values) rest =
    ',' :: (lineStart inner ++ (write value ++ tail write close inner outer values rest)) := by
  simp [tail]

theorem ends_tail : Ends (tail write close inner outer values rest) := by
  intro c hc
  cases values with
  | nil => cases hc; exact .inr rfl
  | cons v values => cases hc; exact .inl rfl

/-- What is written between two brackets are its parts. -/
theorem bracketed_written {opening : Char} (h : ∀ v ∈ value :: values, spells (parse v) (write v)) :
    Bracketed opening close spells ((value :: values).map parse) (opening :: (lineStart inner ++
      (write value ++ tail write close inner outer values []))) := by
  have hparts : Parts spells ((value :: values).map parse) (lineStart inner ++ (write value ++
      ((values.flatMap fun v => ',' :: (lineStart inner ++ write v)) ++ lineStart outer))) := by
    induction values generalizing value with
    | nil =>
      exact .last ⟨_,_,_,layout_lineStart inner,h value List.mem_cons_self,layout_lineStart outer,rfl⟩
    | cons next values ih =>
      obtain ⟨hvalue,hvalues⟩ := List.forall_mem_cons.mp h
      have hpadded : Padded spells (parse value) (lineStart inner ++ write value) :=
        ⟨_,_,[],layout_lineStart inner,hvalue,layout_nil,by rw [List.append_nil]⟩
      have hmore := Parts.more hpadded (ih hvalues)
      simpa using hmore
  exact ⟨_,.inr hparts,by simp [tail]⟩

end parts

/-- Whether a value is written in a form that a reader takes up to a depth of containers. -/
def Readable : Nat → Json → Prop
  | _, .null | _, .bool _ | _, .string _ => True
  | _, .int n => (Nat.toDigits 10 n.natAbs).length ≤ digitLimit
  | depth + 1, .array items => ∀ item ∈ items, Readable depth item
  | depth + 1, .object members => ∀ m ∈ members, Readable depth m.2
  | _, _ => False

mutual

/-- What a written value is read as. -/
def parsed : Json → Parsed
  | .null => .null
  | .bool value => .bool value
  | .int value => .int value
  | .decimal literal => .decimal literal
  | .string value => .string value
  | .array items => .array (parsedItems items)
  | .object members => .object (parsedMembers members)

def parsedItems : List Json → List Parsed
  | [] => []
  | item :: items => item.parsed :: parsedItems items

def parsedMembers : List (String × Json) → List (CodePoints × Parsed)
  | [] => []
  | (name,value) :: members => (CodePoints.ofText name,value.parsed) :: parsedMembers members

end

theorem parsedItems_eq (items : List Json) : parsedItems items = items.map parsed := by
  induction items with
  | nil => rfl
  | cons item items ih => rw [parsedItems, ih, List.map_cons]

theorem parsedMembers_eq (members : List (String × Json)) :
    parsedMembers members = members.map (Prod.map CodePoints.ofText parsed) := by
  induction members with
  | nil => rfl
  | cons m members ih => rw [parsedMembers, ih, List.map_cons, Prod.map]

/-- A member as it stands inside an object. -/
def renderMember (level : Nat) (m : String × Json) : List Char :=
  quote m.1 ++ [':', ' '] ++ renderAt level m.2

theorem renderItems_eq (items : List Json) : renderItems level items =
    items.flatMap fun item => ',' :: (lineStart level ++ renderAt level item) := by
  induction items with
  | nil => rfl
  | cons item items ih => simp [renderItems, ih]

theorem renderMembers_eq (members : List (String × Json)) : renderMembers level members =
    members.flatMap fun m => ',' :: (lineStart level ++ renderMember level m) := by
  induction members with
  | nil => rfl
  | cons m members ih => simp [renderMembers, renderMember, ih]

theorem renderAt_array (item : Json) (items : List Json) :
    renderAt level (.array (item :: items)) ++ rest = '[' :: (lineStart (level + 1) ++
      (renderAt (level + 1) item ++ tail (renderAt (level + 1)) ']' (level + 1) level items rest)) := by
  simp [renderAt, renderItems_eq, tail]

theorem renderAt_object (m : String × Json) (members : List (String × Json)) :
    renderAt level (.object (m :: members)) ++ rest = '{' :: (lineStart (level + 1) ++
      (renderMember (level + 1) m ++
        tail (renderMember (level + 1)) '}' (level + 1) level members rest)) := by
  simp [renderAt, renderMembers_eq, renderMember, tail]

theorem Atom.spells {v : Parsed} {text : List Char} (h : Atom v text) : Spells depth v text := by
  cases depth with
  | zero => exact h
  | succ depth => exact .inl h

theorem member_written {m : String × Json} (h : Spells depth m.2.parsed (renderAt level m.2)) :
    Member (Spells depth) (Prod.map CodePoints.ofText parsed m) (renderMember level m) := by
  refine ⟨quote m.1,[],[' '],renderAt level m.2,quoted_quote m.1,layout_nil,?_,h,by simp [renderMember]⟩
  exact List.forall_mem_singleton.mpr rfl

/-- The text of a value spells it. -/
theorem spells_renderAt {v : Json} (h : Readable depth v) :
    Spells depth v.parsed (renderAt level v) := by
  fun_induction Readable depth v generalizing level with
  | case1 depth => exact Atom.spells (.scalar (@Scalar.word _ "null" (by simp [wordValues, parsed])))
  | case2 depth value =>
    cases value
    · exact Atom.spells (.scalar (@Scalar.word _ "false" (by simp [wordValues, parsed])))
    · exact Atom.spells (.scalar (@Scalar.word _ "true" (by simp [wordValues, parsed])))
  | case3 depth text => exact Atom.spells (.string (quoted_quote text))
  | case4 depth n => exact Atom.spells (.scalar (.number (number_toString h)))
  | case5 depth items ih =>
    refine .inr (.inl ⟨_,by rw [parsed, parsedItems_eq],?_⟩)
    cases items with
    | nil => exact ⟨[],.inl ⟨rfl,layout_nil⟩,rfl⟩
    | cons item items =>
      rw [← List.append_nil (renderAt level _), renderAt_array]
      exact bracketed_written fun v hv => ih v (h v hv)
  | case6 depth members ih =>
    refine .inr (.inr ⟨_,by rw [parsed, parsedMembers_eq],?_⟩)
    cases members with
    | nil => exact ⟨[],.inl ⟨rfl,layout_nil⟩,rfl⟩
    | cons m members =>
      rw [← List.append_nil (renderAt level _), renderAt_object]
      exact bracketed_written fun v hv => member_written (ih v (h v hv))
  | case7 => exact h.elim

/-- Reading the text of a value gives the value. -/
theorem read_render {v : Json} {room : Nat} (h : Readable room v) :
    read room v.render.toList = .ok v.parsed := by
  have hspells := @spells_renderAt 0 room v h
  rw [render, String.toList_ofList]
  exact read_of_spells ⟨[],_,[],layout_nil,hspells,layout_nil,by simp⟩

end Json
end WebAtlas
