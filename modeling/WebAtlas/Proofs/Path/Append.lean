import WebAtlas.Proofs.Path.Lexical
import WebAtlas.Proofs.Path.Text

/-! # Endings of written paths

Text added to a path changes its last name, or adds a name when it starts with a slash. This holds of
names that a normalised path is made of, and a requested path is made of such names.
-/
namespace WebAtlas.Path

/-- Names that a written path gives back as they are. -/
def Written (names : List String) : Prop := ∀ n ∈ names, isVoid n = false ∧ '/' ∉ n.toList

/-- Written names of which none steps up. -/
def Plain (names : List String) : Prop :=
  ∀ n ∈ names, isVoid n = false ∧ n ≠ ".." ∧ '/' ∉ n.toList

instance : DecidablePred Plain := fun _ => inferInstanceAs (Decidable (∀ n ∈ _, _ ∧ _ ∧ _))

theorem Written.append {xs ys : List String} (hx : Written xs) (hy : Written ys) : Written (xs ++ ys) :=
  List.forall_mem_append.mpr ⟨hx,hy⟩

theorem Plain.written {names : List String} (h : Plain names) : Written names :=
  fun n hn => ⟨(h n hn).1,(h n hn).2.2⟩

theorem Plain.append {xs ys : List String} (hx : Plain xs) (hy : Plain ys) : Plain (xs ++ ys) := by
  intro n hn
  rcases List.mem_append.mp hn with hn | hn
  · exact hx n hn
  · exact hy n hn

theorem Plain.mono {xs ys : List String} (h : Plain ys) (hs : xs ⊆ ys) : Plain xs :=
  fun n hn => h n (hs hn)

theorem plain_singleton {name : String} (hv : isVoid name = false) (hu : name ≠ "..")
    (hs : '/' ∉ name.toList) : Plain [name] := by
  intro n hn
  obtain rfl := List.mem_singleton.mp hn
  exact ⟨hv,hu,hs⟩

theorem not_mem_of_mem_splitOn {α : Type} [DecidableEq α] {a : α} {xs part : List α}
    (h : part ∈ xs.splitOn a) : a ∉ part := by
  induction xs generalizing part with
  | nil =>
    rw [List.splitOn_nil, List.mem_singleton] at h
    simp [h]
  | cons x xs ih =>
    rw [List.splitOn_cons_eq_if_modifyHead] at h
    split at h
    · rcases List.mem_cons.mp h with rfl | h
      · exact List.not_mem_nil
      · exact ih h
    · rename_i hx
      obtain ⟨first,rest,hsplit⟩ := List.exists_cons_of_ne_nil (List.splitOn_ne_nil a xs)
      rw [hsplit, List.modifyHead_cons] at h
      rcases List.mem_cons.mp h with rfl | h
      · have hne : a ≠ x := fun heq => hx (by simp [heq])
        simpa [hne] using ih (hsplit ▸ List.mem_cons_self)
      · exact ih (hsplit ▸ List.mem_cons_of_mem _ h)

theorem slash_not_mem_pieces {text piece : String} (h : piece ∈ pieces text) : '/' ∉ piece.toList := by
  obtain ⟨part,hpart,rfl⟩ := List.mem_map.mp h
  simpa using not_mem_of_mem_splitOn hpart

theorem parse_segments {text s : String} (h : s ∈ (parse text).segments) :
    isVoid s = false ∧ '/' ∉ s.toList := by
  obtain ⟨hmem,hv⟩ := List.mem_filter.mp h
  exact ⟨by simpa using hv,slash_not_mem_pieces hmem⟩

theorem mem_push {rooted : Bool} {stack : List String} {segment s : String}
    (h : s ∈ push rooted stack segment) : s ∈ stack ∨ s = segment ∨ s = ".." := by
  unfold push at h
  split at h
  · rcases List.mem_cons.mp h with rfl | h
    · exact .inr (.inl rfl)
    · exact .inl h
  · cases stack with
    | nil => cases rooted <;> simp_all
    | cons top below =>
      dsimp only at h
      split at h
      · rcases List.mem_cons.mp h with h | h
        · exact .inr (.inr h)
        · exact .inl h
      · exact .inl (List.mem_cons_of_mem _ h)

/-- Normalising keeps some segments and brings in none but steps up. -/
theorem mem_or_dotdot_of_mem_normalize {p : Path} {s : String} (h : s ∈ p.normalize.segments) :
    s ∈ p.segments ∨ s = ".." := by
  have hfold : ∀ segments stack : List String, s ∈ segments.foldl (push p.isAbsolute) stack →
      s ∈ stack ∨ s ∈ segments ∨ s = ".." := by
    intro segments
    induction segments with
    | nil => exact fun stack hs => .inl hs
    | cons segment segments ih =>
      intro stack hs
      rcases ih _ hs with hs | hs | hs
      · rcases mem_push hs with hs | rfl | hs
        · exact .inl hs
        · exact .inr (.inl List.mem_cons_self)
        · exact .inr (.inr hs)
      · exact .inr (.inl (List.mem_cons_of_mem _ hs))
      · exact .inr (.inr hs)
  rcases hfold p.segments [] (List.mem_reverse.mp h) with h | h
  · cases h
  · exact h

/-- An absolute path is left without steps up, so normalising brings in none. -/
theorem mem_of_mem_normalize {p : Path} (hp : p.isAbsolute = true) {s : String}
    (h : s ∈ p.normalize.segments) : s ∈ p.segments :=
  (mem_or_dotdot_of_mem_normalize h).resolve_right (normalize_ne_dotdot hp s h)

theorem Written.normalize {p : Path} (h : Written p.segments) : Written p.normalize.segments := by
  intro s hs
  rcases mem_or_dotdot_of_mem_normalize hs with hs | rfl
  · exact h s hs
  · decide

theorem text_root (names : List String) : (Path.mk .root names).text = "/" ++ "/".intercalate names := by
  rw [text, if_neg (by simp)]
  rfl

theorem intercalate_append (names : List String) {rest : List String} (h : rest ≠ []) :
    "/".intercalate (names ++ rest) = String.join (names.map (· ++ "/")) ++ "/".intercalate rest := by
  induction names with
  | nil => simp
  | cons first names ih =>
    rw [List.cons_append, String.intercalate_cons_of_ne_nil (by simp [h]), ih]
    simp [String.append_assoc]

theorem intercalate_snoc_append (names : List String) (name ending : String) :
    "/".intercalate (names ++ [name]) ++ ending = "/".intercalate (names ++ [name ++ ending]) := by
  simp [intercalate_append, String.append_assoc]

theorem intercalate_snoc (names : List String) (name file : String) :
    "/".intercalate (names ++ [name]) ++ "/" ++ file = "/".intercalate (names ++ [name,file]) := by
  simp [intercalate_append, String.append_assoc, String.intercalate_cons_cons]

theorem ofChars_slash {text : List Char} (h : text.head? ≠ some '/') :
    Anchor.ofChars ('/' :: text) = .root := by
  cases text with
  | nil => rfl
  | cons c text =>
    have hc : c ≠ '/' := by simpa using h
    simp [Anchor.ofChars, hc]

theorem ofChars_two_slashes {text : List Char} (h : text.head? ≠ some '/') :
    Anchor.ofChars ('/' :: '/' :: text) = .doubleRoot := by
  cases text with
  | nil => rfl
  | cons c text =>
    have hc : c ≠ '/' := by simpa using h
    simp [Anchor.ofChars, hc]

theorem pieces_slash (text : String) : pieces ("/" ++ text) = "" :: pieces text := by
  simp [pieces, Text.splitOn, List.splitOn_cons_eq_if_modifyHead]

theorem parse_slash_segments (text : String) : (parse ("/" ++ text)).segments = (parse text).segments := by
  rw [parse, pieces_slash, List.filter_cons_of_neg (by decide)]
  rfl

theorem text_of_ne_nil {p : Path} (h : p.segments ≠ []) :
    p.text = p.anchor.text ++ "/".intercalate p.segments :=
  if_neg fun hp => h hp.2

theorem parse_eq {text : String} {anchor : Anchor} {names : List String}
    (ha : Anchor.ofChars text.toList = anchor) (hs : (parse text).segments = names) :
    parse text = ⟨anchor,names⟩ := by
  rw [← ha, ← hs]
  rfl

/-- Plain names joined by slashes are read as a relative path. -/
theorem parse_plain {names : List String} (h : Plain names) :
    parse ("/".intercalate names) = ⟨.relative,names⟩ :=
  parse_intercalate (fun n hn => (h n hn).2.2) fun n hn => (h n hn).1

/-- The written form of a path is read back. -/
theorem parse_of_written {p : Path} (h : Written p.segments) : parse p.text = p := by
  obtain ⟨anchor,names⟩ := p
  have hrelative : parse ("/".intercalate names) = ⟨.relative,names⟩ :=
    parse_intercalate (fun n hn => (h n hn).2) fun n hn => (h n hn).1
  have hsegments : (parse ("/".intercalate names)).segments = names := congrArg segments hrelative
  have hhead : ("/".intercalate names).toList.head? ≠ some '/' := by
    intro hslash
    have habsolute := parse_isAbsolute hslash
    rw [hrelative] at habsolute
    cases habsolute
  have hslash : "/".toList = ['/'] := rfl
  cases anchor with
  | relative =>
    by_cases hnil : names = []
    · rw [hnil]
      rfl
    · rwa [text_of_ne_nil hnil, Anchor.text, String.empty_append]
  | root =>
    rw [text_root]
    refine parse_eq ?_ ((parse_slash_segments _).trans hsegments)
    rw [String.toList_append, hslash]
    exact ofChars_slash hhead
  | doubleRoot =>
    have htext : (Path.mk .doubleRoot names).text = "/" ++ ("/" ++ "/".intercalate names) := by
      rw [text, if_neg (by simp), ← String.append_assoc]
      rfl
    rw [htext]
    refine parse_eq ?_ ((parse_slash_segments _).trans ((parse_slash_segments _).trans hsegments))
    rw [String.toList_append, String.toList_append, hslash]
    exact ofChars_two_slashes hhead

theorem parse_text_root {names : List String} (h : Plain names) :
    parse (Path.mk .root names).text = Path.mk .root names := parse_of_written h.written

theorem append_snoc {anchor : Anchor} {dir : List String} {name ending : String}
    (h : Written (dir ++ [name ++ ending])) :
    (Path.mk anchor (dir ++ [name])).append ending = Path.mk anchor (dir ++ [name ++ ending]) := by
  rw [append, text_of_ne_nil (by simp), String.append_assoc, intercalate_snoc_append,
    ← text_of_ne_nil (p := ⟨anchor,dir ++ [name ++ ending]⟩) (by simp), parse_of_written h]

theorem append_root {ending : String} (h : Plain [ending]) :
    (Path.mk .root []).append ending = Path.mk .root [ending] := by
  have htext : (Path.mk .root []).text ++ ending = (Path.mk .root [ending]).text := by
    simp [text_root]
  rw [append, htext, parse_text_root h]

theorem append_slash {anchor : Anchor} {dir : List String} {name file : String}
    (h : Written (dir ++ [name,file])) :
    (Path.mk anchor (dir ++ [name])).append ("/" ++ file) = Path.mk anchor (dir ++ [name,file]) := by
  have htext : (Path.mk anchor (dir ++ [name])).text ++ ("/" ++ file) =
      (Path.mk anchor (dir ++ [name,file])).text := by
    rw [text_of_ne_nil (by simp), text_of_ne_nil (by simp), ← intercalate_snoc]
    simp only [String.append_assoc]
  rw [append, htext, parse_of_written h]

end WebAtlas.Path
