import WebAtlas.Proofs.Text.Lines
import WebAtlas.Route.Method

/-! # Method exports

The spellings of an export that offers a method. A handler offers exactly the methods of which its
text contains a spelling.
-/
namespace WebAtlas.HttpMethod
open Text

/-- A keyword, the method and a mark. -/
inductive Declaration (m : HttpMethod) (keyword : String) (mark : Char) : List Char → Prop
  | spelled {gap space : List Char} (hgap : Gap gap) (hspace : Blank space) :
    Declaration m keyword mark (keyword.toList ++ (gap ++ (m.name.toList ++ (space ++ [mark]))))

inductive FunctionExport (m : HttpMethod) : List Char → Prop
  | plain {gap found : List Char} (hgap : Gap gap) (h : Declaration m "function" '(' found) :
    FunctionExport m ("export".toList ++ (gap ++ found))
  | async {gap gap' found : List Char} (hgap : Gap gap) (hgap' : Gap gap')
    (h : Declaration m "function" '(' found) :
    FunctionExport m ("export".toList ++ (gap ++ ("async".toList ++ (gap' ++ found))))

inductive ConstantExport (m : HttpMethod) : List Char → Prop
  | plain {gap found : List Char} (hgap : Gap gap) (h : Declaration m "const" '=' found) :
    ConstantExport m ("export".toList ++ (gap ++ found))

variable {m : HttpMethod} {keyword : String} {mark : Char} {text rest found : List Char}

/-- The characters after a declaration at the front. -/
def afterDeclaration (m : HttpMethod) (keyword : String) (mark : Char) (text : List Char) :
    Option (List Char) := do
  let text ← afterWord m.name.toList (← afterWordGap keyword.toList text)
  afterWord [mark] (skipBlanks text)

theorem functionExportStarts_eq (m : HttpMethod) (text : List Char) : m.functionExportStarts text =
    ((afterWordGap "export".toList text).bind fun text =>
      m.afterDeclaration "function" '(' ((afterWordGap "async".toList text).getD text)).isSome := by
  simp only [functionExportStarts, afterDeclaration, afterWordGap, bind, Option.bind_assoc]

theorem constantExportStarts_eq (m : HttpMethod) (text : List Char) : m.constantExportStarts text =
    ((afterWordGap "export".toList text).bind fun text =>
      m.afterDeclaration "const" '=' text).isSome := by
  simp only [constantExportStarts, afterDeclaration, afterWordGap, bind, Option.bind_assoc]

theorem name_token (m : HttpMethod) : Token m.name.toList := by
  cases m <;> decide

theorem afterDeclaration_eq_some_iff (hmark : isBlank mark = false) :
    m.afterDeclaration keyword mark text = some rest ↔
      ∃ found, Declaration m keyword mark found ∧ text = found ++ rest := by
  simp only [afterDeclaration, bind, Option.bind_eq_some_iff, afterWord_eq_some_iff,
    afterWordGap_eq_some_iff]
  constructor
  · rintro ⟨_,⟨gap,hgap,rfl,-⟩,behind,rfl,hskip⟩
    obtain ⟨space,hspace,hbehind⟩ := skipBlanks_split behind
    rw [hskip] at hbehind
    exact ⟨_,.spelled hgap hspace,by simp [hbehind]⟩
  · rintro ⟨_,⟨hgap,hspace⟩,rfl⟩
    simp only [List.append_assoc]
    refine ⟨_,⟨_,hgap,rfl,(name_token m).head?⟩,_,rfl,?_⟩
    exact skipBlanks_eq hspace (by simpa using hmark)

/-- A declaration starts with its keyword. -/
theorem Declaration.head? (hk : Token keyword.toList) (h : Declaration m keyword mark found) :
    ∀ c ∈ (found ++ rest).head?, isBlank c = false := by
  cases h
  rw [List.append_assoc]
  exact hk.head?

theorem afterAsync_declaration (h : Declaration m "function" '(' found) :
    afterWordGap "async".toList (found ++ rest) = none := by
  cases h
  rfl

theorem functionExportStarts_iff : m.functionExportStarts text = true ↔
    ∃ found, FunctionExport m found ∧ found <+: text := by
  have hk : Token "function".toList := by decide
  have hmark : isBlank '(' = false := by decide
  rw [functionExportStarts_eq, Option.isSome_iff_exists]
  simp only [Option.bind_eq_some_iff, afterDeclaration_eq_some_iff hmark]
  constructor
  · rintro ⟨rest,behind,hexport,found,hfound,hbehind⟩
    obtain ⟨gap,hgap,rfl,-⟩ := afterWordGap_eq_some_iff.mp hexport
    cases hasync : afterWordGap "async".toList behind with
    | none =>
      rw [hasync, Option.getD_none] at hbehind
      subst hbehind
      exact ⟨_,.plain hgap hfound,rest,by simp only [List.append_assoc]⟩
    | some ahead =>
      rw [hasync, Option.getD_some] at hbehind
      subst hbehind
      obtain ⟨gap',hgap',rfl,-⟩ := afterWordGap_eq_some_iff.mp hasync
      exact ⟨_,.async hgap hgap' hfound,rest,by simp only [List.append_assoc]⟩
  · rintro ⟨_,hspelled,rest,rfl⟩
    cases hspelled with
    | plain hgap hfound =>
      simp only [List.append_assoc]
      refine ⟨rest,_,afterWordGap_append hgap (hfound.head? hk),_,hfound,?_⟩
      rw [afterAsync_declaration hfound, Option.getD_none]
    | async hgap hgap' hfound =>
      simp only [List.append_assoc]
      refine ⟨rest,_,afterWordGap_append hgap (Token.head? (by decide)),_,hfound,?_⟩
      rw [afterWordGap_append hgap' (hfound.head? hk), Option.getD_some]

theorem constantExportStarts_iff : m.constantExportStarts text = true ↔
    ∃ found, ConstantExport m found ∧ found <+: text := by
  have hk : Token "const".toList := by decide
  have hmark : isBlank '=' = false := by decide
  rw [constantExportStarts_eq, Option.isSome_iff_exists]
  simp only [Option.bind_eq_some_iff, afterDeclaration_eq_some_iff hmark]
  constructor
  · rintro ⟨rest,_,hexport,found,hfound,rfl⟩
    obtain ⟨gap,hgap,rfl,-⟩ := afterWordGap_eq_some_iff.mp hexport
    exact ⟨_,.plain hgap hfound,rest,by simp only [List.append_assoc]⟩
  · rintro ⟨_,⟨hgap,hfound⟩,rest,rfl⟩
    simp only [List.append_assoc]
    exact ⟨rest,_,afterWordGap_append hgap (hfound.head? hk),_,hfound,rfl⟩

/-- A method is offered when the text contains a spelling of its export. -/
theorem mem_detect_iff {text : String} : m ∈ detect text ↔
    ∃ found, (FunctionExport m found ∨ ConstantExport m found) ∧ found <:+: text.toList := by
  have hall : m ∈ all := by cases m <;> decide
  rw [detect, List.mem_filter, Bool.or_eq_true, exportsFunction, exportsConstant,
    somewhere_iff_contains fun _ => functionExportStarts_iff,
    somewhere_iff_contains fun _ => constantExportStarts_iff]
  simp [hall, or_and_right, exists_or]

theorem detect_sublist (text : String) : (detect text).Sublist all := List.filter_sublist

theorem detect_nodup (text : String) : (detect text).Nodup :=
  (detect_sublist text).nodup (by decide)

/-- The methods that a handler offers are those of which it contains a spelling, each once and in the
order in which methods are listed. -/
theorem detect_exports (text : String) :
    ((detect text).map name).Sublist ["GET", "POST", "PUT", "DELETE", "PATCH"] ∧ (detect text).Nodup ∧
    ∀ m, m ∈ detect text ↔
      ∃ found, (FunctionExport m found ∨ ConstantExport m found) ∧ found <:+: text.toList :=
  ⟨(detect_sublist text).map name,detect_nodup text,fun _ => mem_detect_iff⟩

/-- Words run together, a word in between and a name that goes on offer nothing. -/
example : detect "export\n const\tPATCH =\x7b\x7d; export async  function GET\n(" = [.get,.patch] ∧
    detect "exportfunction GET() export default function PUT() export const POSTS = 1" = [] := by
  decide +kernel

end WebAtlas.HttpMethod
