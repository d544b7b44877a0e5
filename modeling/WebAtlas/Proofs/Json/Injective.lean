import WebAtlas.Proofs.Json.RoundTrip

/-! # No two values have one text

A text is written for one value at most, however long its integers are and however deep its containers
nest. Only numbers that keep their written form are left out, since that form may be any text.
-/
namespace WebAtlas.Json
variable {rest rest' : List Char} {level : Nat} {v w : Json}

/-- A value without numbers that keep their written form. -/
inductive Exact : Json → Prop
  | null : Exact .null
  | bool (value : Bool) : Exact (.bool value)
  | int (value : Int) : Exact (.int value)
  | string (value : String) : Exact (.string value)
  | array {items : List Json} (h : ∀ item ∈ items, Exact item) : Exact (.array items)
  | object {members : List (String × Json)} (h : ∀ m ∈ members, Exact m.2) : Exact (.object members)

attribute [simp] Exact.null Exact.bool Exact.int Exact.string

@[simp] theorem exact_array {items : List Json} : Exact (.array items) ↔ ∀ item ∈ items, Exact item :=
  ⟨fun | .array h => h,.array⟩

@[simp] theorem exact_object {members : List (String × Json)} :
    Exact (.object members) ↔ ∀ m ∈ members, Exact m.2 :=
  ⟨fun | .object h => h,.object⟩

theorem quote_append (text : String) (rest : List Char) :
    quote text ++ rest = '"' :: (text.toList.flatMap escape ++ '"' :: rest) := by
  simp [quote]

theorem quote_append_inj {text text' : String} (h : quote text ++ rest = quote text' ++ rest') :
    text = text' ∧ rest = rest' := by
  rw [quote_append, quote_append, List.cons_inj_right] at h
  have hread := @readString_quote rest text
  rw [h, readString_quote, Except.ok.injEq, Prod.mk.injEq] at hread
  exact ⟨(CodePoints.ofText_injective hread.1).symm,hread.2.symm⟩

theorem toDigits_append_inj {n m : Nat} (hrest : ∀ c ∈ rest.head?, c.isDigit = false)
    (hrest' : ∀ c ∈ rest'.head?, c.isDigit = false)
    (h : Nat.toDigits 10 n ++ rest = Nat.toDigits 10 m ++ rest') : n = m ∧ rest = rest' := by
  have hread := readWhole_toDigits hrest n
  rw [h, readWhole_toDigits hrest', Option.some.injEq, Prod.mk.injEq] at hread
  obtain ⟨hdigits,hend⟩ := hread
  have hvalue := congrArg digitsValue hdigits
  rw [digitsValue_toDigits, digitsValue_toDigits] at hvalue
  exact ⟨hvalue.symm,hend.symm⟩

/-- Digits do not begin with a sign. -/
theorem sign_ne_toDigits {n m : Nat} :
    '-' :: Nat.toDigits 10 n ++ rest ≠ Nat.toDigits 10 m ++ rest' := by
  obtain ⟨d,digits,hd,hdigit⟩ := toDigits_cons m
  intro h
  rw [hd, List.cons_append, List.cons_append] at h
  rw [← (List.cons.inj h).1] at hdigit
  cases hdigit

theorem toString_append_inj {n m : Int} (hrest : Ends rest) (hrest' : Ends rest')
    (h : (toString n).toList ++ rest = (toString m).toList ++ rest') : n = m ∧ rest = rest' := by
  have hend : ∀ c ∈ rest.head?, c.isDigit = false := hrest.head? rfl rfl
  have hend' : ∀ c ∈ rest'.head?, c.isDigit = false := hrest'.head? rfl rfl
  rcases toString_cases n with ⟨hn,hnegative⟩ | ⟨hn,hnatural⟩ <;>
    rcases toString_cases m with ⟨hm,hnegative'⟩ | ⟨hm,hnatural'⟩ <;> rw [hn, hm] at h
  · obtain ⟨habs,hsame⟩ := toDigits_append_inj hend hend' (List.cons.inj h).2
    exact ⟨by rw [← hnegative, ← hnegative', habs],hsame⟩
  · exact absurd h sign_ne_toDigits
  · exact absurd h.symm sign_ne_toDigits
  · obtain ⟨habs,hsame⟩ := toDigits_append_inj hend hend' h
    exact ⟨by rw [← hnatural, ← hnatural', habs],hsame⟩

section parts
variable {α : Type} {write : α → List Char} {Valid : α → Prop} {close : Char} {value value' : α}
  {values values' : List α} {inner outer : Nat}

/-- The text of a part is that of no other valid part, whatever may follow the two. -/
def Tells (write : α → List Char) (Valid : α → Prop) (value : α) : Prop :=
  ∀ other rest rest', Valid other → Ends rest → Ends rest' →
    write value ++ rest = write other ++ rest' → value = other ∧ rest = rest'

theorem tail_nil_ne_cons : tail write close inner outer [] rest ≠
    tail write close inner outer (value :: values) rest' := by
  intro h
  rw [tail_cons] at h
  cases (List.cons.inj h).1

theorem tail_inj (h : ∀ v ∈ values, Tells write Valid v) (hvalid : ∀ v ∈ values', Valid v)
    (heq : tail write close inner outer values rest = tail write close inner outer values' rest') :
    values = values' ∧ rest = rest' := by
  induction values generalizing values' with
  | nil =>
    cases values' with
    | nil =>
      have hclosing : lineStart outer ++ close :: rest = lineStart outer ++ close :: rest' := heq
      exact ⟨rfl,(List.cons.inj (List.append_cancel_left hclosing)).2⟩
    | cons => exact absurd heq tail_nil_ne_cons
  | cons value values ih =>
    cases values' with
    | nil => exact absurd heq.symm tail_nil_ne_cons
    | cons value' values' =>
      obtain ⟨hvalue,hvalues⟩ := List.forall_mem_cons.mp h
      obtain ⟨hvalid',hvalids⟩ := List.forall_mem_cons.mp hvalid
      rw [tail_cons, tail_cons, List.cons_inj_right, List.append_cancel_left_eq] at heq
      obtain ⟨rfl,htail⟩ := hvalue value' _ _ hvalid' ends_tail ends_tail heq
      obtain ⟨rfl,hrest⟩ := ih hvalues hvalids htail
      exact ⟨rfl,hrest⟩

/-- A container behind its opening character. -/
def container (write : α → List Char) (close : Char) (inner outer : Nat) :
    List α → List Char → List Char
  | [], rest => close :: rest
  | value :: values, rest =>
    lineStart inner ++ (write value ++ tail write close inner outer values rest)

theorem container_nil_ne_cons (hclose : close ≠ '\n') : container write close inner outer [] rest ≠
    container write close inner outer (value :: values) rest' := by
  intro h
  exact hclose (List.cons.inj h).1

/-- Containers are told apart part by part. -/
theorem container_inj (hclose : close ≠ '\n') (h : ∀ v ∈ values, Tells write Valid v)
    (hvalid : ∀ v ∈ values', Valid v) (heq : container write close inner outer values rest =
      container write close inner outer values' rest') : values = values' ∧ rest = rest' := by
  cases values with
  | nil =>
    cases values' with
    | nil => exact ⟨rfl,(List.cons.inj heq).2⟩
    | cons => exact absurd heq (container_nil_ne_cons hclose)
  | cons value values =>
    cases values' with
    | nil => exact absurd heq.symm (container_nil_ne_cons hclose)
    | cons value' values' =>
      obtain ⟨hvalue,hvalues⟩ := List.forall_mem_cons.mp h
      obtain ⟨hvalid',hvalids⟩ := List.forall_mem_cons.mp hvalid
      rw [container, container, List.append_cancel_left_eq] at heq
      obtain ⟨rfl,htail⟩ := hvalue value' _ _ hvalid' ends_tail ends_tail heq
      obtain ⟨rfl,hrest⟩ := tail_inj hvalues hvalids htail
      exact ⟨rfl,hrest⟩

end parts

theorem renderAt_array_eq (items : List Json) : renderAt level (.array items) ++ rest =
    '[' :: container (renderAt (level + 1)) ']' (level + 1) level items rest := by
  cases items with
  | nil => rfl
  | cons item items => exact renderAt_array item items

theorem renderAt_object_eq (members : List (String × Json)) : renderAt level (.object members) ++ rest =
    '\x7b' :: container (renderMember (level + 1)) '\x7d' (level + 1) level members rest := by
  cases members with
  | nil => rfl
  | cons m members => exact renderAt_object m members

theorem tells_member {m : String × Json} (h : Tells (renderAt level) Exact m.2) :
    Tells (renderMember level) (fun m => Exact m.2) m := by
  rintro ⟨name,value⟩ rest rest' hvalid hrest hrest' heq
  simp only [renderMember, List.append_assoc] at heq
  obtain ⟨hname,hvalue⟩ := quote_append_inj heq
  rw [List.append_cancel_left_eq] at hvalue
  obtain ⟨hsame,hrests⟩ := h value _ _ hvalid hrest hrest' hvalue
  exact ⟨Prod.ext hname hsame,hrests⟩

/-- The form of the values that begin with a character. -/
def formOf : Char → Nat
  | 'n' => 0
  | 't' | 'f' => 1
  | '"' => 2
  | '[' => 3
  | '\x7b' => 4
  | _ => 5

def form : Json → Nat
  | .null => 0
  | .bool _ => 1
  | .string _ => 2
  | .array _ => 3
  | .object _ => 4
  | .int _ => 5
  | .decimal _ => 6

theorem formOf_digit {c : Char} (h : c.isDigit = true) : formOf c = 5 := by
  unfold formOf
  split <;> simp_all

/-- The first character of a value shows its form. -/
theorem opening_of_exact (h : Exact v) :
    ∃ c text, renderAt level v = c :: text ∧ formOf c = v.form := by
  cases h with
  | null => exact ⟨'n',_,rfl,rfl⟩
  | bool value =>
    cases value
    · exact ⟨'f',_,rfl,rfl⟩
    · exact ⟨'t',_,rfl,rfl⟩
  | int n =>
    rcases toString_cases n with ⟨htext,-⟩ | ⟨htext,-⟩
    · exact ⟨'-',_,htext,rfl⟩
    · obtain ⟨d,digits,hd,hdigit⟩ := toDigits_cons n.natAbs
      exact ⟨d,digits,htext.trans hd,formOf_digit hdigit⟩
  | string => exact ⟨'"',_,rfl,rfl⟩
  | @array items => cases items <;> exact ⟨'[',_,rfl,rfl⟩
  | @object members => cases members <;> exact ⟨'\x7b',_,rfl,rfl⟩

theorem form_eq_of_append (hv : Exact v) (hw : Exact w)
    (h : renderAt level v ++ rest = renderAt level w ++ rest') : v.form = w.form := by
  obtain ⟨c,text,hc,hform⟩ := @opening_of_exact level v hv
  obtain ⟨c',text',hc',hform'⟩ := @opening_of_exact level w hw
  rw [hc, hc', List.cons_append, List.cons_append] at h
  rw [← hform, ← hform', (List.cons.inj h).1]

/-- The text of a value is that of no other one, whatever may follow the two. -/
theorem tells_exact (hv : Exact v) : Tells (renderAt level) Exact v := by
  intro w rest rest' hw hrest hrest' h
  have hform := form_eq_of_append hv hw h
  induction hv generalizing level w rest rest' with
  | null =>
    cases hw with
    | null => exact ⟨rfl,List.append_cancel_left h⟩
    | _ => cases hform
  | bool value =>
    cases hw with
    | bool value' =>
      cases value <;> cases value'
      · exact ⟨rfl,List.append_cancel_left h⟩
      · cases (List.cons.inj h).1
      · cases (List.cons.inj h).1
      · exact ⟨rfl,List.append_cancel_left h⟩
    | _ => cases hform
  | int n =>
    cases hw with
    | int m =>
      obtain ⟨rfl,hsame⟩ := toString_append_inj hrest hrest' h
      exact ⟨rfl,hsame⟩
    | _ => cases hform
  | string text =>
    cases hw with
    | string text' =>
      obtain ⟨rfl,hsame⟩ := quote_append_inj h
      exact ⟨rfl,hsame⟩
    | _ => cases hform
  | array hitems ih =>
    cases hw with
    | array hitems' =>
      rw [renderAt_array_eq, renderAt_array_eq, List.cons_inj_right] at h
      have htells : ∀ item ∈ _, Tells (renderAt (level + 1)) Exact item :=
        fun item hitem w rest rest' hw hrest hrest' h =>
          ih item hitem w rest rest' hw hrest hrest' h (form_eq_of_append (hitems item hitem) hw h)
      obtain ⟨rfl,hsame⟩ := container_inj (by decide) htells hitems' h
      exact ⟨rfl,hsame⟩
    | _ => cases hform
  | object hmembers ih =>
    cases hw with
    | object hmembers' =>
      rw [renderAt_object_eq, renderAt_object_eq, List.cons_inj_right] at h
      have htells : ∀ m ∈ _, Tells (renderMember (level + 1)) (fun m => Exact m.2) m :=
        fun m hm => tells_member fun w rest rest' hw hrest hrest' h =>
          ih m hm w rest rest' hw hrest hrest' h (form_eq_of_append (hmembers m hm) hw h)
      obtain ⟨rfl,hsame⟩ := container_inj (by decide) htells hmembers' h
      exact ⟨rfl,hsame⟩
    | _ => cases hform

/-- Different values have different texts. -/
theorem render_inj (hv : Exact v) (hw : Exact w) (h : v.render = w.render) : v = w := by
  have htext : renderAt 0 v ++ [] = renderAt 0 w ++ [] := by
    rw [List.append_nil, List.append_nil]
    exact String.ofList_injective h
  exact (tells_exact hv w [] [] hw (fun _ hc => by cases hc) (fun _ hc => by cases hc) htext).1

end WebAtlas.Json
