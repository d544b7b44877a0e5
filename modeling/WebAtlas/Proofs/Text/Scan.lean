import WebAtlas.Text.Scan
import Mathlib.Data.List.TakeWhile

/-! # Readers and scans of a text

What each reader accepts, as the text that it splits, and how a scan goes over a text part by part:
where nothing can be read it passes on, and behind a match it goes on after it.
-/
namespace WebAtlas.Text
variable {word text rest gap taken before after : List Char} {c : Char}

/-- Blanks only. -/
def Blank (text : List Char) : Prop := ∀ c ∈ text, isBlank c = true

/-- A text without blanks, not empty. -/
def Token (text : List Char) : Prop := text ≠ [] ∧ ∀ c ∈ text, isBlank c = false

/-- A text of word characters, not empty. -/
def Word (text : List Char) : Prop := text ≠ [] ∧ ∀ c ∈ text, isWordChar c = true

/-- What may stand between two words. -/
def Gap (text : List Char) : Prop := text ≠ [] ∧ Blank text

-- decided along the text, not by a search over all characters
instance : DecidablePred Blank := fun text => List.decidableBAll _ text

instance : DecidablePred Token := fun text =>
  have := List.decidableBAll (isBlank · = false) text
  inferInstanceAs (Decidable (text ≠ [] ∧ _))

instance : DecidablePred Gap := fun text => inferInstanceAs (Decidable (text ≠ [] ∧ Blank text))

instance : DecidablePred Word := fun text =>
  have := List.decidableBAll (isWordChar · = true) text
  inferInstanceAs (Decidable (text ≠ [] ∧ _))

theorem inSpans_cases {spans : List (Nat × Nat)} {n : Nat} (h : inSpans spans n = true) :
    ∃ s ∈ spans, s.1 ≤ n ∧ n ≤ s.2 := by
  induction spans with
  | nil => cases h
  | cons s spans ih =>
    rw [inSpans] at h
    split at h
    · cases h
    · rename_i hge
      rcases Bool.or_eq_true_iff.mp h with h | h
      · exact ⟨s,List.mem_cons_self,Nat.le_of_not_lt hge,of_decide_eq_true h⟩
      · obtain ⟨t,ht,hn⟩ := ih h
        exact ⟨t,List.mem_cons_of_mem _ ht,hn⟩

theorem blankSpans_apart : ∀ s ∈ blankSpans, ∀ t ∈ alphanumericSpans, s.2 < t.1 ∨ t.2 < s.1 := by
  decide +kernel

theorem isBlank_of_isWordChar (h : isWordChar c = true) : isBlank c = false := by
  rcases Bool.or_eq_true_iff.mp h with h | h
  · rw [beq_iff_eq.mp h]
    decide
  · by_contra hb
    obtain ⟨s,hs,hsn⟩ := inSpans_cases (by simpa using hb : isBlank c = true)
    obtain ⟨t,ht,htn⟩ := inSpans_cases h
    have happart := blankSpans_apart s hs t ht
    omega

theorem Word.token (h : Word word) : Token word := ⟨h.1,fun c hc => isBlank_of_isWordChar (h.2 c hc)⟩

theorem afterWord_eq_some_iff : afterWord word text = some rest ↔ text = word ++ rest := by
  induction word generalizing text with
  | nil => simp [afterWord]
  | cons w word ih =>
    cases text with
    | nil => simp [afterWord]
    | cons c text =>
      rw [afterWord]
      by_cases hc : w = c
      · simp [hc, ih]
      · simp [hc, Ne.symm hc]

theorem afterChar_eq_some_iff {accepts : Char → Bool} :
    afterChar accepts text = some rest ↔ ∃ c, accepts c = true ∧ text = c :: rest := by
  cases text with
  | nil => simp [afterChar]
  | cons c text =>
    rw [afterChar, Option.ite_none_right_eq_some]
    constructor
    · rintro ⟨hc,hrest⟩
      exact ⟨c,hc,by rw [Option.some.inj hrest]⟩
    · rintro ⟨c,hc,heq⟩
      obtain ⟨rfl,rfl⟩ := List.cons.inj heq
      exact ⟨hc,rfl⟩

theorem afterWord_isSome_iff : (afterWord word text).isSome = true ↔ word <+: text := by
  rw [Option.isSome_iff_exists]
  constructor
  · rintro ⟨rest,h⟩
    exact ⟨rest,(afterWord_eq_some_iff.mp h).symm⟩
  · rintro ⟨rest,h⟩
    exact ⟨rest,afterWord_eq_some_iff.mpr h.symm⟩

theorem afterWord_eq_none {w : Char} (hw : word.head? = some w) (h : ∀ c ∈ text.head?, c ≠ w) :
    afterWord word text = none := by
  rw [Option.eq_none_iff_forall_ne_some]
  intro rest hrest
  refine h w ?_ rfl
  rw [afterWord_eq_some_iff.mp hrest, List.head?_append, hw]
  rfl

/-- A word whose first letter does not recur cannot stand across the border to a text that is empty or
starts with that letter. -/
theorem prefix_of_prefix_append {back : List Char} (hc : c ∉ word) (hne : back ≠ [])
    (hrest : ∀ d ∈ rest.head?, d = c) (h : c :: word <+: back ++ rest) : c :: word <+: back := by
  obtain ⟨tail,htail⟩ := h
  rcases List.append_eq_append_iff.mp htail with ⟨z,hback,-⟩ | ⟨z,hword,hz⟩
  · exact ⟨z,hback.symm⟩
  · obtain ⟨d,back,rfl⟩ := List.exists_cons_of_ne_nil hne
    obtain ⟨rfl,rfl⟩ := List.cons.inj hword
    cases z with
    | nil => simp
    | cons d z =>
      have hd : d = c := hrest d (by rw [hz]; rfl)
      exact absurd (List.mem_append_right _ (by rw [hd]; exact List.mem_cons_self)) hc

/-- What stands behind the longest run of some characters does not start with one. -/
theorem head?_dropWhile {accepts : Char → Bool} :
    ∀ c ∈ (text.dropWhile accepts).head?, accepts c = false := by
  intro c hc
  have h := List.head?_dropWhile_not accepts text
  rw [Option.mem_def.mp hc] at h
  exact h

theorem dropWhile_append {accepts : Char → Bool} (h : ∀ c ∈ taken, accepts c = true)
    (ht : ∀ c ∈ text.head?, accepts c = false) : (taken ++ text).dropWhile accepts = text := by
  rw [List.dropWhile_append_of_pos h]
  cases text with
  | nil => rfl
  | cons c text => exact List.dropWhile_cons_of_neg (by simpa using ht c rfl)

theorem takeWhile_append {accepts : Char → Bool} (h : ∀ c ∈ taken, accepts c = true)
    (ht : ∀ c ∈ text.head?, accepts c = false) : (taken ++ text).takeWhile accepts = taken := by
  rw [List.takeWhile_append_of_pos h]
  cases text with
  | nil => simp
  | cons c text => rw [List.takeWhile_cons_of_neg (by simpa using ht c rfl), List.append_nil]

theorem bne_of_not_mem (h : c ∉ text) : ∀ d ∈ text, (d != c) = true := fun _ hd =>
  bne_iff_ne.mpr (ne_of_mem_of_not_mem hd h)

theorem takeWhile_bne (h : c ∉ taken) (text : List Char) :
    (taken ++ c :: text).takeWhile (· != c) = taken :=
  takeWhile_append (bne_of_not_mem h) (by simp)

theorem takeWhile_ne (h : c ∉ taken) (text : List Char) :
    (taken ++ c :: text).takeWhile (· ≠ c) = taken :=
  takeWhile_append (fun _ hd => decide_eq_true (ne_of_mem_of_not_mem hd h)) (by simp)

theorem dropWhile_ne (h : c ∉ taken) (text : List Char) :
    (taken ++ c :: text).dropWhile (· ≠ c) = c :: text :=
  dropWhile_append (fun _ hd => decide_eq_true (ne_of_mem_of_not_mem hd h)) (by simp)

/-- A text is split at the first occurrence of a character in one way. -/
theorem split_at_first {front front' : List Char} (hf : c ∉ front) (hf' : c ∉ front')
    (h : front ++ c :: text = front' ++ c :: rest) : front = front' ∧ text = rest := by
  have heq : front = front' := by rw [← takeWhile_bne hf text, h, takeWhile_bne hf' rest]
  subst heq
  exact ⟨rfl,(List.cons.inj (List.append_cancel_left h)).2⟩

theorem Token.head? (h : Token word) : ∀ c ∈ (word ++ text).head?, isBlank c = false := by
  obtain ⟨c,word,rfl⟩ := List.exists_cons_of_ne_nil h.1
  intro d hd
  cases hd
  exact h.2 c List.mem_cons_self

theorem head?_blank_append (hne : gap ≠ []) (hg : Blank gap) :
    ∀ c ∈ (gap ++ text).head?, isBlank c = true := by
  obtain ⟨c,gap,rfl⟩ := List.exists_cons_of_ne_nil hne
  intro d hd
  cases hd
  exact hg c List.mem_cons_self

theorem skipBlanks_eq (hg : Blank gap) (ht : ∀ c ∈ text.head?, isBlank c = false) :
    skipBlanks (gap ++ text) = text := dropWhile_append hg ht

theorem skipBlanks_split (text : List Char) : ∃ gap, Blank gap ∧ text = gap ++ skipBlanks text :=
  ⟨text.takeWhile isBlank,fun _ hc => List.mem_takeWhile_imp hc,List.takeWhile_append_dropWhile.symm⟩

theorem afterBlanks_eq_some_iff : afterBlanks text = some rest ↔
    ∃ gap, gap ≠ [] ∧ Blank gap ∧ text = gap ++ rest ∧ ∀ c ∈ rest.head?, isBlank c = false := by
  constructor
  · intro h
    cases text with
    | nil => cases h
    | cons c text =>
      rw [afterBlanks] at h
      split at h
      · rename_i hc
        cases h
        obtain ⟨gap,hgap,htext⟩ := skipBlanks_split text
        exact ⟨c :: gap,List.cons_ne_nil _ _,List.forall_mem_cons.mpr ⟨hc,hgap⟩,
          by rw [List.cons_append, ← htext],head?_dropWhile⟩
      · cases h
  · rintro ⟨gap,hne,hgap,rfl,hrest⟩
    obtain ⟨c,gap,rfl⟩ := List.exists_cons_of_ne_nil hne
    obtain ⟨hc,hgap⟩ := List.forall_mem_cons.mp hgap
    rw [List.cons_append, afterBlanks, if_pos hc, skipBlanks_eq hgap hrest]

theorem afterBlanks_append (hg : Gap gap) (h : ∀ c ∈ text.head?, isBlank c = false) :
    afterBlanks (gap ++ text) = some text :=
  afterBlanks_eq_some_iff.mpr ⟨gap,hg.1,hg.2,rfl,h⟩

/-- The characters after a word and a gap. -/
def afterWordGap (word text : List Char) : Option (List Char) := (afterWord word text).bind afterBlanks

theorem afterWordGap_eq_some_iff : afterWordGap word text = some rest ↔
    ∃ gap, Gap gap ∧ text = word ++ (gap ++ rest) ∧ ∀ c ∈ rest.head?, isBlank c = false := by
  simp only [afterWordGap, Option.bind_eq_some_iff, afterWord_eq_some_iff, afterBlanks_eq_some_iff]
  constructor
  · rintro ⟨_,rfl,gap,hne,hgap,rfl,hrest⟩
    exact ⟨gap,⟨hne,hgap⟩,rfl,hrest⟩
  · rintro ⟨gap,hgap,rfl,hrest⟩
    exact ⟨_,rfl,gap,hgap.1,hgap.2,rfl,hrest⟩

theorem afterWordGap_append (hgap : Gap gap) (h : ∀ c ∈ text.head?, isBlank c = false) :
    afterWordGap word (word ++ (gap ++ text)) = some text :=
  afterWordGap_eq_some_iff.mpr ⟨gap,hgap,rfl,h⟩

theorem run_eq_some_iff {accepts : Char → Bool} : run accepts text = some (taken,rest) ↔
    taken ≠ [] ∧ (∀ c ∈ taken, accepts c = true) ∧ text = taken ++ rest ∧
      ∀ c ∈ rest.head?, accepts c = false := by
  constructor
  · intro h
    unfold run at h
    split at h
    · cases h
    · rename_i hne
      cases h
      exact ⟨hne,fun _ hc => List.mem_takeWhile_imp hc,List.takeWhile_append_dropWhile.symm,
        head?_dropWhile⟩
  · rintro ⟨hne,htaken,rfl,hrest⟩
    unfold run
    rw [takeWhile_append htaken hrest, dropWhile_append htaken hrest]
    cases taken with
    | nil => exact absurd rfl hne
    | cons => rfl

theorem wordsFrom_append_blanks (hg : Blank gap) (text word : List Char) :
    wordsFrom word (text ++ gap) = wordsFrom word text := by
  induction text generalizing word with
  | nil =>
    induction gap generalizing word with
    | nil => rfl
    | cons c gap ih =>
      obtain ⟨hc,hgap⟩ := List.forall_mem_cons.mp hg
      have hnil : wordsFrom [] gap = [] := by simpa [wordsFrom] using ih hgap []
      cases word with
      | nil => simp [wordsFrom, hc, hnil]
      | cons d word => simp [wordsFrom, hc, hnil]
  | cons c text ih =>
    rw [List.cons_append, wordsFrom, wordsFrom]
    simp only [ih]

theorem words_append_blanks (hg : Blank gap) : words (text ++ gap) = words text :=
  wordsFrom_append_blanks hg text []

theorem words_blanks_append (hg : Blank gap) : words (gap ++ text) = words text := by
  induction gap with
  | nil => rfl
  | cons c gap ih =>
    obtain ⟨hc,hgap⟩ := List.forall_mem_cons.mp hg
    have hcons : words (c :: (gap ++ text)) = words (gap ++ text) := by simp [words, wordsFrom, hc]
    rw [List.cons_append, hcons, ih hgap]

theorem words_blanks (hg : Blank gap) : words gap = [] := by
  have h := @words_blanks_append [] gap hg
  rwa [List.append_nil] at h

theorem wordsFrom_append (hw : ∀ c ∈ word, isBlank c = false) (begun : List Char) :
    wordsFrom begun (word ++ text) = wordsFrom (word.reverse ++ begun) text := by
  induction word generalizing begun with
  | nil => rfl
  | cons c word ih =>
    obtain ⟨hc,hw⟩ := List.forall_mem_cons.mp hw
    rw [List.cons_append, wordsFrom, if_neg (by simp [hc]), ih hw]
    simp

theorem words_append (hw : Token word) (ht : ∀ c ∈ text.head?, isBlank c = true) :
    words (word ++ text) = word :: words text := by
  obtain ⟨hne,hw⟩ := hw
  rw [words, wordsFrom_append hw, List.append_nil]
  have hreverse : word.reverse.isEmpty = false := by simpa using hne
  cases text with
  | nil => simp [words, wordsFrom, hne]
  | cons c text => simp [words, wordsFrom, ht c rfl, hne]

theorem words_token (hw : Token word) : words word = [word] := by
  have h := @words_append word [] hw (by simp)
  rwa [List.append_nil] at h

/-- The first word starts where the blanks at the front end. -/
theorem words_cons_of_prefix {w : List Char} (hw : Token w) (h : w <+: text) :
    ∃ first others, words text = first :: others ∧ w <+: first := by
  obtain ⟨rest,rfl⟩ := h
  obtain ⟨tail,hsplit⟩ : ∃ tail, rest = rest.takeWhile (!isBlank ·) ++ tail :=
    ⟨_,List.takeWhile_append_dropWhile.symm⟩
  refine ⟨w ++ rest.takeWhile (!isBlank ·),words (rest.dropWhile (!isBlank ·)),?_,
    List.prefix_append _ _⟩
  have htoken : Token (w ++ rest.takeWhile (!isBlank ·)) := by
    refine ⟨by simp [hw.1],fun c hc => ?_⟩
    rcases List.mem_append.mp hc with hc | hc
    · exact hw.2 c hc
    · simpa using List.mem_takeWhile_imp hc
  have hhead : ∀ c ∈ (rest.dropWhile (!isBlank ·)).head?, isBlank c = true := fun c hc => by
    simpa using head?_dropWhile c hc
  rw [← words_append htoken hhead, List.append_assoc, List.takeWhile_append_dropWhile]

theorem length_wordsFrom_le (text : List Char) {begun begun' : List Char}
    (h : begun ≠ [] → begun' ≠ []) :
    (wordsFrom begun text).length ≤ (wordsFrom begun' text).length := by
  induction text generalizing begun begun' with
  | nil => cases begun <;> cases begun' <;> simp_all [wordsFrom]
  | cons c text ih =>
    by_cases hc : isBlank c = true
    · cases begun <;> cases begun' <;> simp_all [wordsFrom]
    · simpa [wordsFrom, hc] using ih fun _ => List.cons_ne_nil c begun'

/-- A text has no fewer words than what stands at its end. -/
theorem length_words_le (front text begun : List Char) :
    (words text).length ≤ (wordsFrom begun (front ++ text)).length := by
  induction front generalizing begun with
  | nil => exact length_wordsFrom_le text fun h => absurd rfl h
  | cons c front ih =>
    rw [List.cons_append, wordsFrom]
    split
    · split
      · exact ih []
      · exact Nat.le_succ_of_le (ih [])
    · exact ih _

theorem trimBlanks_split (text : List Char) :
    ∃ front back, Blank front ∧ Blank back ∧ text = front ++ trimBlanks text ++ back := by
  obtain ⟨front,hfront,htext⟩ := skipBlanks_split text
  obtain ⟨back,hback,hrest⟩ := skipBlanks_split (skipBlanks text).reverse
  refine ⟨front,back.reverse,hfront,fun c hc => hback c (List.mem_reverse.mp hc),?_⟩
  have hskip : skipBlanks text = trimBlanks text ++ back.reverse := by
    rw [← List.reverse_reverse (skipBlanks text), hrest, List.reverse_append]
    rfl
  rw [List.append_assoc, ← hskip, ← htext]

/-- Trimming takes nothing off a word that blanks at most stand before. -/
theorem prefix_trimBlanks (hg : Blank gap) (hw : Token word) (text : List Char) :
    word <+: trimBlanks (gap ++ (word ++ text)) := by
  have htrim : trimBlanks (gap ++ (word ++ text)) = ((word ++ text).reverse.dropWhile isBlank).reverse := by
    rw [trimBlanks, dropWhile_append hg hw.head?]
  obtain ⟨back,hback,hsplit⟩ := skipBlanks_split (word ++ text).reverse
  have hwhole : word ++ text = trimBlanks (gap ++ (word ++ text)) ++ back.reverse := by
    rw [htrim, ← skipBlanks, ← List.reverse_append, ← hsplit, List.reverse_reverse]
  rcases List.append_eq_append_iff.mp hwhole with ⟨tail,htail,-⟩ | ⟨tail,hword,htail⟩
  · exact ⟨tail,htail.symm⟩
  · have hnil : tail = [] := by
      rw [List.eq_nil_iff_forall_not_mem]
      intro c hc
      have hblank := hback c (List.mem_reverse.mp (by rw [htail]; exact List.mem_append_left _ hc))
      have hsolid := hw.2 c (by rw [hword]; exact List.mem_append_right _ hc)
      rw [hblank] at hsolid
      cases hsolid
    rw [hnil, List.append_nil] at hword
    exact ⟨[],by rw [List.append_nil, ← hword]⟩

theorem words_trimBlanks (text : List Char) : words (trimBlanks text) = words text := by
  obtain ⟨front,back,hfront,hback,htext⟩ := trimBlanks_split text
  have hwords : words (front ++ trimBlanks text ++ back) = words (trimBlanks text) := by
    rw [List.append_assoc, words_blanks_append hfront, words_append_blanks hback]
  rw [← hwords, ← htext]

/-- The character before what follows a text. -/
def lastOf (before : Option Char) (text : List Char) : Option Char := text.getLast?.or before

@[simp] theorem lastOf_cons (before : Option Char) (c : Char) (text : List Char) :
    lastOf before (c :: text) = lastOf (some c) text := by
  cases text <;> simp [lastOf, List.getLast?_cons]

theorem lastOf_append (before : Option Char) (front back : List Char) :
    lastOf before (front ++ back) = lastOf (lastOf before front) back := by
  induction front generalizing before with
  | nil => rfl
  | cons c front ih => rw [List.cons_append, lastOf_cons, lastOf_cons, ih]

section Scan
variable {α : Type} {allowed : Option Char → Bool} {read : List Char → Option (α × List Char)}
  {found : α} {last : Option Char} {front back : List Char}

/-- Nothing is read at any place of a text that `rest` follows. -/
def Silent (allowed : Option Char → Bool) (read : List Char → Option (α × List Char))
    (last : Option Char) (text rest : List Char) : Prop :=
  ∀ front back, text = front ++ back → back ≠ [] → allowed (lastOf last front) = true →
    read (back ++ rest) = none

theorem silent_append (hf : Silent allowed read last front (back ++ rest))
    (hb : Silent allowed read (lastOf last front) back rest) :
    Silent allowed read last (front ++ back) rest := by
  intro x y heq hne hallowed
  rcases List.append_eq_append_iff.mp heq with ⟨z,rfl,rfl⟩ | ⟨z,rfl,rfl⟩
  · rw [lastOf_append] at hallowed
    exact hb z y rfl hne hallowed
  · by_cases hz : z = []
    · subst hz
      rw [List.append_nil] at hb
      exact hb [] back rfl hne hallowed
    · rw [List.append_assoc]
      exact hf x z rfl hz hallowed

/-- Where no character but the last allows a match behind it, only the first place counts. -/
theorem silent_of_first (h : read (front ++ rest) = none)
    (hin : ∀ c ∈ front.dropLast, allowed (some c) = false) :
    Silent allowed read last front rest := by
  intro x y heq hne hallowed
  obtain rfl | ⟨x,c,rfl⟩ := List.eq_nil_or_concat x
  · rwa [heq] at h
  · have hc : c ∈ front.dropLast := by
      rw [heq, List.dropLast_append_of_ne_nil hne]
      simp
    have hlast : lastOf last (x ++ [c]) = some c := by simp [lastOf]
    rw [List.concat_eq_append, hlast, hin c hc] at hallowed
    cases hallowed

theorem matchesFrom_skip (front text : List Char) (last : Option Char) :
    matchesFrom allowed read last front.length (front ++ text) =
      matchesFrom allowed read (lastOf last front) 0 text := by
  induction front generalizing last with
  | nil => rfl
  | cons c front ih => rw [List.cons_append, List.length_cons, matchesFrom, ih, lastOf_cons]

theorem matchesFrom_silent (h : Silent allowed read last front text) :
    matchesFrom allowed read last 0 (front ++ text) =
      matchesFrom allowed read (lastOf last front) 0 text := by
  induction front generalizing last with
  | nil => rfl
  | cons c front ih =>
    have hnone : (if allowed last = true then read (c :: (front ++ text)) else none) = none := by
      split
      · rename_i hallowed
        exact h [] (c :: front) rfl (List.cons_ne_nil _ _) hallowed
      · rfl
    have hfront : Silent allowed read (some c) front text := by
      intro x y heq hne hallowed
      exact h (c :: x) y (by rw [heq, List.cons_append]) hne (by rwa [lastOf_cons])
    rw [List.cons_append, matchesFrom, hnone, lastOf_cons]
    exact ih hfront

theorem matchesFrom_match (hallowed : allowed last = true) (hne : front ≠ [])
    (hread : read (front ++ text) = some (found,text)) :
    matchesFrom allowed read last 0 (front ++ text) =
      found :: matchesFrom allowed read (lastOf last front) 0 text := by
  obtain ⟨c,front,rfl⟩ := List.exists_cons_of_ne_nil hne
  have hlength : (front ++ text).length - text.length = front.length := by simp
  rw [List.cons_append] at hread ⊢
  rw [matchesFrom, if_pos hallowed, hread]
  simp only [hlength, matchesFrom_skip, lastOf_cons]

theorem matchesFrom_eq_nil (h : Silent allowed read last text []) :
    matchesFrom allowed read last 0 text = [] := by
  have hend := matchesFrom_silent h
  rw [List.append_nil] at hend
  rw [hend, matchesFrom]

end Scan

end WebAtlas.Text
