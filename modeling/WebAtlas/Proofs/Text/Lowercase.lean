import WebAtlas.Proofs.Text.Lines
import Mathlib.Data.String.Defs

/-! # Case variants in lowercase text

Lowercasing takes ASCII to ASCII, and only two characters from outside into it: the Kelvin sign becomes
a `k`, and `İ` an `i` with a dot of its own behind it. So what a search in lowercased text finds of a
cue in ASCII, without a `k` and with no `i` at its end, are the case variants of the cue.
-/
namespace WebAtlas.Text
variable {c : Char} {cue needle text form : List Char}

/-- The texts differ in the case of ASCII letters at most. -/
def CaseVariant (text cue : List Char) : Prop := text.map Char.toLower = cue.map Char.toLower

instance (text cue : List Char) : Decidable (CaseVariant text cue) :=
  inferInstanceAs (Decidable (_ = _))

/-- The lowercase forms, by what they bring into ASCII. -/
inductive LowerForm : Char → List Char → Prop
  | ascii {c : Char} (hc : c.isAscii = true) : LowerForm c [c.toLower]
  | kelvin : LowerForm '\u212A' ['k']
  | dotted : LowerForm '\u0130' ['i','\u0307']
  | beyond {c d : Char} (hc : c.isAscii = false) (hd : d.isAscii = false) : LowerForm c [d]

theorem shiftIn_cases (runs : List (Nat × Nat × Nat × Int)) (n : Nat) :
    shiftIn runs n = 0 ∨ ∃ run ∈ runs, run.1 ≤ n ∧ n ≤ run.2.1 ∧ shiftIn runs n = run.2.2.2 := by
  induction runs with
  | nil => exact .inl rfl
  | cons run runs ih =>
    rw [shiftIn]
    split
    · exact .inl rfl
    · rename_i hge
      split
      · rename_i hin
        have hle : n ≤ run.2.1 := of_decide_eq_true (Bool.and_eq_true_iff.mp hin).1
        exact .inr ⟨run,List.mem_cons_self,Nat.le_of_not_lt hge,hle,rfl⟩
      · exact ih.imp_right fun ⟨r,hr,h⟩ => ⟨r,List.mem_cons_of_mem _ hr,h⟩

/-- Past the ASCII letters only the Kelvin sign comes to lie in ASCII, and no other code point leaves
the range of characters. -/
theorem lowercaseRuns_beyond : ∀ run ∈ lowercaseRuns, 128 ≤ run.2.1 → run ≠ (0x212A,0x212A,1,-8383) →
    128 ≤ (run.1 : Int) + run.2.2.2 ∧ ((run.2.1 : Int) + run.2.2.2 < 0xD800 ∨
      0xDFFF < (run.1 : Int) + run.2.2.2 ∧ (run.2.1 : Int) + run.2.2.2 < 0x110000) := by
  decide +kernel

theorem lowerChar_ascii (hc : c.isAscii = true) : lowerChar c = [c.toLower] := by
  have hall : ∀ n < 128, lowerChar (Char.ofNat n) = [(Char.ofNat n).toLower] := by decide +kernel
  rw [← Char.ofNat_toNat c]
  exact hall c.toNat (of_decide_eq_true hc)

theorem lowerChar_beyond (hc : c.isAscii = false) (hk : c ≠ '\u212A') (hi : c ≠ '\u0130') :
    ∃ d, lowerChar c = [d] ∧ d.isAscii = false := by
  have hbeyond : 128 ≤ c.toNat := Nat.le_of_not_lt (of_decide_eq_false hc)
  refine ⟨_,if_neg hi,?_⟩
  rcases shiftIn_cases lowercaseRuns c.toNat with hshift | ⟨run,hrun,hfirst,hlast,hshift⟩
  · rwa [hshift, Int.add_zero, Int.toNat_natCast, Char.ofNat_toNat]
  · have hkelvin : run ≠ (0x212A,0x212A,1,-8383) := by
      rintro rfl
      apply hk
      rw [← Char.ofNat_toNat c, Nat.le_antisymm hlast hfirst]
    obtain ⟨hlow,hvalid⟩ := lowercaseRuns_beyond run hrun (hbeyond.trans hlast) hkelvin
    have hchar : ((c.toNat : Int) + run.2.2.2).toNat.isValidChar := by
      unfold Nat.isValidChar
      omega
    have hcode : (Char.ofNat ((c.toNat : Int) + run.2.2.2).toNat).toNat =
        ((c.toNat : Int) + run.2.2.2).toNat := by
      rw [Char.ofNat, dif_pos hchar]
      rfl
    rw [hshift, Char.isAscii, hcode]
    exact decide_eq_false (by omega)

theorem lowerChar_form (c : Char) : LowerForm c (lowerChar c) := by
  cases hc : c.isAscii with
  | true => exact lowerChar_ascii hc ▸ .ascii hc
  | false =>
    by_cases hk : c = '\u212A'
    · subst hk
      exact .kelvin
    · by_cases hi : c = '\u0130'
      · subst hi
        exact .dotted
      · obtain ⟨d,hform,hd⟩ := lowerChar_beyond hc hk hi
        exact hform ▸ .beyond hc hd

/-- Which sigma is taken hangs on its neighbours, but none of them is of ASCII. -/
theorem lowerFrom_cons_form (afterLetter : Bool) (c : Char) (text : List Char) :
    ∃ form afterLetter', LowerForm c form ∧
      lowerFrom afterLetter (c :: text) = form ++ lowerFrom afterLetter' text := by
  rw [lowerFrom]
  refine ⟨_,_,?_,rfl⟩
  split
  · rename_i hc
    subst hc
    split
    · exact .beyond (by decide) (by decide)
    · exact .beyond (by decide) (by decide)
  · exact lowerChar_form c

theorem isAscii_of_toLower (h : c.toLower.isAscii = true) : c.isAscii = true := by
  unfold Char.toLower at h
  split at h
  · rename_i hupper
    exact decide_eq_true (Nat.lt_of_le_of_lt hupper.2 (by decide))
  · exact h

theorem lower_of_ascii (h : ∀ c ∈ text, c.isAscii = true) : lower text = text.map Char.toLower := by
  have hfrom : ∀ afterLetter, lowerFrom afterLetter text = text.map Char.toLower := by
    induction text with
    | nil => exact fun _ => rfl
    | cons c text ih =>
      intro afterLetter
      obtain ⟨hc,htext⟩ := List.forall_mem_cons.mp h
      have hsigma : c ≠ 'Σ' := by
        rintro rfl
        cases hc
      rw [lowerFrom, if_neg hsigma, lowerChar_ascii hc, ih htext]
      rfl
  exact hfrom false

/-- Lowercase ASCII that no character from outside comes to lie in. -/
structure Distinct (needle : List Char) : Prop where
  ascii : ∀ c ∈ needle, c.isAscii = true
  kelvin : 'k' ∉ needle
  dotted : needle.getLast? ≠ some 'i'

instance : DecidablePred Distinct := fun needle =>
  have := List.decidableBAll (·.isAscii = true) needle
  decidable_of_iff ((∀ c ∈ needle, c.isAscii = true) ∧ 'k' ∉ needle ∧ needle.getLast? ≠ some 'i')
    ⟨fun h => ⟨h.1,h.2.1,h.2.2⟩,fun h => ⟨h.ascii,h.kelvin,h.dotted⟩⟩

theorem Distinct.tail {n : Char} (h : Distinct (n :: needle)) : Distinct needle where
  ascii := fun c hc => h.ascii c (List.mem_cons_of_mem _ hc)
  kelvin := fun hk => h.kelvin (List.mem_cons_of_mem _ hk)
  dotted := fun hi => h.dotted (by rw [List.getLast?_cons, hi]; rfl)

/-- The text has a case variant of `needle` at its front. -/
def Begins (needle text : List Char) : Prop :=
  ∃ found, found <+: text ∧ found.map Char.toLower = needle

theorem begins_cons_iff {n : Char} :
    Begins (n :: needle) (c :: text) ↔ n = c.toLower ∧ Begins needle text := by
  constructor
  · rintro ⟨found,hfound,hmap⟩
    obtain ⟨d,found,rfl⟩ := List.exists_cons_of_ne_nil (l := found) (by rintro rfl; cases hmap)
    obtain ⟨rfl,hrest⟩ := List.cons_prefix_cons.mp hfound
    obtain ⟨hd,hmap⟩ := List.cons.inj hmap
    exact ⟨hd.symm,found,hrest,hmap⟩
  · rintro ⟨rfl,found,hfound,rfl⟩
    exact ⟨c :: found,List.cons_prefix_cons.mpr ⟨rfl,hfound⟩,rfl⟩

/-- A distinct text at the front of lowercased text is a case variant of what stands there. -/
theorem Distinct.prefix_lowerFrom_iff (h : Distinct needle) (afterLetter : Bool) :
    needle <+: lowerFrom afterLetter text ↔ Begins needle text := by
  induction needle generalizing text afterLetter with
  | nil => exact iff_of_true List.nil_prefix ⟨[],List.nil_prefix,rfl⟩
  | cons n needle ih =>
    cases text with
    | nil => simp [lowerFrom, Begins]
    | cons c text =>
      have hn : n.isAscii = true := h.ascii n List.mem_cons_self
      have houtside : c.isAscii = false → ¬ (n = c.toLower ∧ Begins needle text) := by
        rintro hc ⟨rfl,-⟩
        rw [isAscii_of_toLower hn] at hc
        cases hc
      obtain ⟨form,afterLetter',hform,hlower⟩ := lowerFrom_cons_form afterLetter c text
      rw [hlower, begins_cons_iff]
      cases hform with
      | ascii hc => rw [List.singleton_append, List.cons_prefix_cons, ih h.tail]
      | kelvin =>
        refine iff_of_false (fun hpre => ?_) (houtside rfl)
        obtain ⟨rfl,-⟩ := List.cons_prefix_cons.mp hpre
        exact h.kelvin List.mem_cons_self
      | dotted =>
        refine iff_of_false (fun hpre => ?_) (houtside rfl)
        obtain ⟨rfl,hdot⟩ := List.cons_prefix_cons.mp hpre
        -- what follows the `i` would be the dot, which is not of ASCII
        cases needle with
        | nil => exact h.dotted rfl
        | cons m needle =>
          obtain ⟨rfl,-⟩ := List.cons_prefix_cons.mp hdot
          cases h.tail.ascii _ List.mem_cons_self
      | beyond hc hd =>
        refine iff_of_false (fun hpre => ?_) (houtside hc)
        obtain ⟨rfl,-⟩ := List.cons_prefix_cons.mp hpre
        rw [hn] at hd
        cases hd

theorem Distinct.infix_lowerFrom_iff (h : Distinct needle) (afterLetter : Bool) :
    needle <:+: lowerFrom afterLetter text ↔
      ∃ found, found <:+: text ∧ found.map Char.toLower = needle := by
  induction text generalizing afterLetter with
  | nil => simp [lowerFrom, eq_comm]
  | cons c text ih =>
    have hplaces : (∃ found, found <:+: c :: text ∧ found.map Char.toLower = needle) ↔
        Begins needle (c :: text) ∨ ∃ found, found <:+: text ∧ found.map Char.toLower = needle := by
      simp only [List.infix_cons_iff, or_and_right, exists_or, Begins]
    obtain ⟨form,afterLetter',hform,hlower⟩ := lowerFrom_cons_form afterLetter c text
    rw [hplaces, ← h.prefix_lowerFrom_iff afterLetter, ← ih afterLetter', hlower]
    cases hform with
    | ascii _ => exact List.infix_cons_iff
    | kelvin => exact List.infix_cons_iff
    | beyond _ _ => exact List.infix_cons_iff
    | dotted =>
      have hdot : needle <+: '\u0307' :: lowerFrom afterLetter' text →
          needle <:+: lowerFrom afterLetter' text := by
        intro hpre
        cases needle with
        | nil => exact List.nil_infix
        | cons n needle =>
          obtain ⟨rfl,-⟩ := List.cons_prefix_cons.mp hpre
          cases h.ascii _ List.mem_cons_self
      rw [List.cons_append, List.singleton_append, List.infix_cons_iff, List.infix_cons_iff]
      exact or_congr_right ⟨fun hin => hin.elim hdot id,.inr⟩

/-- A search in lowercased text for a lowercased cue finds the case variants of the cue. -/
theorem infix_lower_iff (h : Distinct (cue.map Char.toLower)) :
    lower cue <:+: lower text ↔ ∃ found, found <:+: text ∧ CaseVariant found cue := by
  have hascii : ∀ c ∈ cue, c.isAscii = true := fun c hc =>
    isAscii_of_toLower (h.ascii _ (List.mem_map_of_mem hc))
  rw [lower_of_ascii hascii]
  exact h.infix_lowerFrom_iff false

/-- What a distinct cue may not hold: a Kelvin sign passes for a `k`, and `İ` for an `i` at the end. -/
example : lower ['o','k'] <:+: lower ['O','\u212A'] ∧ ¬ CaseVariant ['O','\u212A'] ['o','k'] ∧
    lower ['h','i'] <:+: lower ['H','\u0130'] ∧ ¬ CaseVariant ['H','\u0130'] ['h','i'] := by
  decide +kernel

end WebAtlas.Text
