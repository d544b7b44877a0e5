import WebAtlas.Proofs.Text.Decoding

/-! # Strict decoding

Bytes are decoded strictly exactly when they are the UTF-8 form of a text. Between the decoder and the
encoding of a character stand the well-formed sequences of bytes, each with the value it carries.
-/
namespace WebAtlas.Utf8
variable {v : Nat} {bytes rest : List UInt8} {text : List Char} {c : Char}

/-- A byte that is not the first of its character. -/
abbrev Continues (b : UInt8) : Prop := 0x80 ≤ b.toNat ∧ b.toNat < 0xC0

/-- The well-formed sequences of bytes and their values. A first byte that could start a form longer
than needed, a surrogate or a value out of range narrows the second byte. -/
inductive Sequence (v : Nat) : List UInt8 → Prop
  | one {b : UInt8} (hb : b.toNat < 0x80) (hv : v = b.toNat) : Sequence v [b]
  | two {b c : UInt8} (hb : 0xC2 ≤ b.toNat ∧ b.toNat < 0xE0) (hc : Continues c)
    (hv : v = (b.toNat - 0xC0) * 64 + (c.toNat - 0x80)) : Sequence v [b,c]
  | three {b c d : UInt8} (hb : 0xE0 ≤ b.toNat ∧ b.toNat < 0xF0) (hc : Continues c)
    (hlow : b.toNat = 0xE0 → 0xA0 ≤ c.toNat) (hhigh : b.toNat = 0xED → c.toNat ≤ 0x9F)
    (hd : Continues d) (hv : v = ((b.toNat - 0xE0) * 64 + (c.toNat - 0x80)) * 64 + (d.toNat - 0x80)) :
    Sequence v [b,c,d]
  | four {b c d e : UInt8} (hb : 0xF0 ≤ b.toNat ∧ b.toNat < 0xF5) (hc : Continues c)
    (hlow : b.toNat = 0xF0 → 0x90 ≤ c.toNat) (hhigh : b.toNat = 0xF4 → c.toNat ≤ 0x8F)
    (hd : Continues d) (he : Continues e)
    (hv : v = (((b.toNat - 0xF0) * 64 + (c.toNat - 0x80)) * 64 + (d.toNat - 0x80)) * 64 +
      (e.toNat - 0x80)) : Sequence v [b,c,d,e]

theorem Sequence.isValidChar (h : Sequence v bytes) : v.isValidChar := by
  unfold Nat.isValidChar
  cases h <;> omega

theorem toNat_ofNat_of_valid (h : v.isValidChar) : (Char.ofNat v).val.toNat = v := by
  rw [Char.ofNat, dif_pos h]
  rfl

theorem ofNat_eq {n : Nat} {b : UInt8} (h : n = b.toNat) : UInt8.ofNat n = b := by
  rw [h, UInt8.ofNat_toNat]

theorem Sequence.encode (h : Sequence v bytes) : String.utf8EncodeChar (Char.ofNat v) = bytes := by
  have hvalue := toNat_ofNat_of_valid h.isValidChar
  unfold String.utf8EncodeChar
  simp only [hvalue]
  cases h with
  | one hb hv =>
    rw [if_pos (by omega), ofNat_eq hv]
  | two hb hc hv =>
    rw [if_neg (by omega), if_pos (by omega)]
    simp only [List.cons.injEq, and_true]
    exact ⟨ofNat_eq (by omega),ofNat_eq (by omega)⟩
  | three hb hc hlow hhigh hd hv =>
    rw [if_neg (by omega), if_neg (by omega), if_pos (by omega)]
    simp only [List.cons.injEq, and_true]
    exact ⟨ofNat_eq (by omega),ofNat_eq (by omega),ofNat_eq (by omega)⟩
  | four hb hc hlow hhigh hd he hv =>
    rw [if_neg (by omega), if_neg (by omega), if_neg (by omega)]
    simp only [List.cons.injEq, and_true]
    exact ⟨ofNat_eq (by omega),ofNat_eq (by omega),ofNat_eq (by omega),ofNat_eq (by omega)⟩

theorem sequence_encode (c : Char) : Sequence c.toNat (String.utf8EncodeChar c) := by
  have hvalid : c.toNat < 0xD800 ∨ 0xDFFF < c.toNat ∧ c.toNat < 0x110000 := c.valid
  have hvalue : c.val.toNat = c.toNat := rfl
  have hbyte : ∀ n < 256, (UInt8.ofNat n).toNat = n := fun n hn => UInt8.toNat_ofNat_of_lt hn
  unfold String.utf8EncodeChar
  simp only [hvalue]
  generalize c.toNat = v at hvalid
  split_ifs with hone htwo hthree
  · have hb := hbyte v (by omega)
    exact .one (by omega) hb.symm
  · have hb := hbyte (v / 64 % 32 + 192) (by omega)
    have hc := hbyte (v % 64 + 128) (by omega)
    exact .two (by omega) (by omega) (by omega)
  · have hb := hbyte (v / 4096 % 16 + 224) (by omega)
    have hc := hbyte (v / 64 % 64 + 128) (by omega)
    have hd := hbyte (v % 64 + 128) (by omega)
    exact .three (by omega) (by omega) (by omega) (by omega) (by omega) (by omega)
  · have hb := hbyte (v / 262144 % 8 + 240) (by omega)
    have hc := hbyte (v / 4096 % 64 + 128) (by omega)
    have hd := hbyte (v / 64 % 64 + 128) (by omega)
    have he := hbyte (v % 64 + 128) (by omega)
    exact .four (by omega) (by omega) (by omega) (by omega) (by omega) (by omega) (by omega)

section Steps
variable {b low high : UInt8} {missing bits : Nat}

theorem first_two (hb : 0xC2 ≤ b.toNat ∧ b.toNat < 0xE0) :
    first b = (.inside 1 (b.toNat - 0xC0) 0x80 0xBF,[]) := by
  unfold first
  simp only [UInt8.lt_iff_toNat_lt, UInt8.reduceToNat]
  rw [if_neg (by omega), if_neg (by omega), if_pos (by omega)]

theorem first_three (hb : 0xE0 ≤ b.toNat ∧ b.toNat < 0xF0) :
    first b = (.inside 2 (b.toNat - 0xE0) (if b = 0xE0 then 0xA0 else 0x80)
      (if b = 0xED then 0x9F else 0xBF),[]) := by
  unfold first
  simp only [UInt8.lt_iff_toNat_lt, UInt8.reduceToNat]
  rw [if_neg (by omega), if_neg (by omega), if_neg (by omega), if_pos (by omega)]

theorem first_four (hb : 0xF0 ≤ b.toNat ∧ b.toNat < 0xF5) :
    first b = (.inside 3 (b.toNat - 0xF0) (if b = 0xF0 then 0x90 else 0x80)
      (if b = 0xF4 then 0x8F else 0xBF),[]) := by
  unfold first
  simp only [UInt8.lt_iff_toNat_lt, UInt8.reduceToNat]
  rw [if_neg (by omega), if_neg (by omega), if_neg (by omega), if_neg (by omega), if_pos (by omega)]

theorem first_other (hb : 0x80 ≤ b.toNat) (hb' : b.toNat < 0xC2 ∨ 0xF5 ≤ b.toNat) :
    first b = (.start,[none]) := by
  unfold first
  simp only [UInt8.lt_iff_toNat_lt, UInt8.reduceToNat]
  rw [if_neg (by omega)]
  rcases hb' with hb' | hb'
  · rw [if_pos hb']
  · rw [if_neg (by omega), if_neg (by omega), if_neg (by omega), if_neg (by omega)]

theorem itemsFrom_inside (hb : low.toNat ≤ b.toNat ∧ b.toNat ≤ high.toNat) (rest : List UInt8) :
    itemsFrom (.inside missing bits low high) (b :: rest) =
      if missing ≤ 1 then some (Char.ofNat (bits * 64 + (b.toNat - 0x80))) :: itemsFrom .start rest
      else itemsFrom (.inside (missing - 1) (bits * 64 + (b.toNat - 0x80)) 0x80 0xBF) rest := by
  have hin : (low ≤ b && b ≤ high) = true := by simpa [UInt8.le_iff_toNat_le] using hb
  rw [itemsFrom_cons, step, if_pos hin]
  dsimp only
  split_ifs <;> rfl

/-- Inside a character strict decoding goes on only with a byte that continues it. -/
theorem continues_of_strict (h : itemsFrom (.inside missing bits low high) bytes = text.map some) :
    ∃ b rest, bytes = b :: rest ∧ low.toNat ≤ b.toNat ∧ b.toNat ≤ high.toNat := by
  cases bytes with
  | nil => cases text <;> simp [itemsFrom] at h
  | cons b rest =>
    refine ⟨b,rest,rfl,?_⟩
    by_contra hout
    have hout : ¬ (low ≤ b && b ≤ high) = true := by simpa [UInt8.le_iff_toNat_le] using hout
    rw [itemsFrom_cons, step, if_neg hout] at h
    cases text <;> simp at h

end Steps

/-- What a first byte that narrows the second one leaves for it. -/
theorem narrowed_iff {b c low high least greatest : UInt8} (hleast : 0x80 ≤ least.toNat)
    (hgreatest : greatest.toNat ≤ 0xBF) :
    (if b = low then least else 0x80).toNat ≤ c.toNat ∧
        c.toNat ≤ (if b = high then greatest else 0xBF).toNat ↔
      Continues c ∧ (b.toNat = low.toNat → least.toNat ≤ c.toNat) ∧
        (b.toNat = high.toNat → c.toNat ≤ greatest.toNat) := by
  simp only [apply_ite UInt8.toNat, ← UInt8.toNat_inj, UInt8.reduceToNat]
  split_ifs <;> omega

/-- A sequence is decoded to the character of its value. -/
theorem Sequence.items (h : Sequence v bytes) (rest : List UInt8) :
    items (bytes ++ rest) = some (Char.ofNat v) :: items rest := by
  unfold Utf8.items
  cases h with
  | one hb hv =>
    rw [List.singleton_append, itemsFrom_cons, step, first_ascii hb, hv]
    rfl
  | two hb hc hv =>
    simp only [List.cons_append, List.nil_append]
    rw [itemsFrom_cons, step, first_two hb, List.nil_append,
      itemsFrom_inside (by simp only [UInt8.reduceToNat]; omega), if_pos (by decide), ← hv]
  | three hb hc hlow hhigh hd hv =>
    simp only [List.cons_append, List.nil_append]
    rw [itemsFrom_cons, step, first_three hb, List.nil_append,
      itemsFrom_inside ((narrowed_iff (by decide) (by decide)).mpr ⟨hc,hlow,hhigh⟩), if_neg (by decide),
      itemsFrom_inside (by simp only [UInt8.reduceToNat]; omega), if_pos (by decide), ← hv]
  | four hb hc hlow hhigh hd he hv =>
    simp only [List.cons_append, List.nil_append]
    rw [itemsFrom_cons, step, first_four hb, List.nil_append,
      itemsFrom_inside ((narrowed_iff (by decide) (by decide)).mpr ⟨hc,hlow,hhigh⟩), if_neg (by decide),
      itemsFrom_inside (by simp only [UInt8.reduceToNat]; omega), if_neg (by decide),
      itemsFrom_inside (by simp only [UInt8.reduceToNat]; omega), if_pos (by decide), ← hv]

theorem cons_eq_map_some {items : List (Option Char)} (h : some c :: items = text.map some) :
    ∃ behind, text = c :: behind ∧ items = behind.map some := by
  obtain ⟨d,behind,rfl,hd,hitems⟩ := List.map_eq_cons_iff.mp h.symm
  cases hd
  exact ⟨behind,rfl,hitems.symm⟩

/-- Bytes that are decoded without a fault begin with a sequence. -/
theorem sequence_of_strict {b : UInt8} (h : items (b :: bytes) = text.map some) :
    ∃ v front rest behind, Sequence v front ∧ b :: bytes = front ++ rest ∧
      text = Char.ofNat v :: behind ∧ items rest = behind.map some := by
  unfold items at h ⊢
  rw [itemsFrom_cons, step] at h
  by_cases hone : b.toNat < 0x80
  · rw [first_ascii hone] at h
    obtain ⟨behind,htext,hrest⟩ := cons_eq_map_some h
    exact ⟨_,[b],bytes,behind,.one hone rfl,rfl,htext,hrest⟩
  by_cases htwo : 0xC2 ≤ b.toNat ∧ b.toNat < 0xE0
  · rw [first_two htwo, List.nil_append] at h
    obtain ⟨c,rest,rfl,hc⟩ := continues_of_strict h
    rw [itemsFrom_inside hc, if_pos (by decide)] at h
    obtain ⟨behind,htext,hrest⟩ := cons_eq_map_some h
    simp only [UInt8.reduceToNat] at hc
    exact ⟨_,[b,c],rest,behind,.two htwo (by omega) rfl,rfl,htext,hrest⟩
  by_cases hthree : 0xE0 ≤ b.toNat ∧ b.toNat < 0xF0
  · rw [first_three hthree, List.nil_append] at h
    obtain ⟨c,rest,rfl,hc⟩ := continues_of_strict h
    rw [itemsFrom_inside hc, if_neg (by decide)] at h
    obtain ⟨d,rest,rfl,hd⟩ := continues_of_strict h
    rw [itemsFrom_inside hd, if_pos (by decide)] at h
    obtain ⟨behind,htext,hrest⟩ := cons_eq_map_some h
    obtain ⟨hc,hlow,hhigh⟩ := (narrowed_iff (by decide) (by decide)).mp hc
    simp only [UInt8.reduceToNat] at hd
    exact ⟨_,[b,c,d],rest,behind,.three hthree hc hlow hhigh (by omega) rfl,rfl,htext,hrest⟩
  by_cases hfour : 0xF0 ≤ b.toNat ∧ b.toNat < 0xF5
  · rw [first_four hfour, List.nil_append] at h
    obtain ⟨c,rest,rfl,hc⟩ := continues_of_strict h
    rw [itemsFrom_inside hc, if_neg (by decide)] at h
    obtain ⟨d,rest,rfl,hd⟩ := continues_of_strict h
    rw [itemsFrom_inside hd, if_neg (by decide)] at h
    obtain ⟨e,rest,rfl,he⟩ := continues_of_strict h
    rw [itemsFrom_inside he, if_pos (by decide)] at h
    obtain ⟨behind,htext,hrest⟩ := cons_eq_map_some h
    obtain ⟨hc,hlow,hhigh⟩ := (narrowed_iff (by decide) (by decide)).mp hc
    simp only [UInt8.reduceToNat] at hd he
    exact ⟨_,[b,c,d,e],rest,behind,.four hfour hc hlow hhigh (by omega) (by omega) rfl,rfl,htext,hrest⟩
  · rw [first_other (by omega) (by omega)] at h
    cases text <;> simp at h

theorem mapM_id_eq_some_iff {items : List (Option Char)} :
    items.mapM id = some text ↔ items = text.map some := by
  induction items generalizing text with
  | nil => cases text <;> simp
  | cons item items ih =>
    cases item with
    | none => cases text <;> simp [List.mapM_cons]
    | some c =>
      rw [mapM_some_cons, Option.map_eq_some_iff]
      simp only [ih]
      constructor
      · rintro ⟨behind,rfl,rfl⟩
        rfl
      · intro h
        obtain ⟨behind,rfl,hitems⟩ := cons_eq_map_some h
        exact ⟨behind,hitems,rfl⟩

/-- Bytes are decoded strictly exactly when they are the UTF-8 form of the text. -/
theorem decodeStrict?_eq_some_iff :
    decodeStrict? bytes = some text ↔ bytes = text.flatMap String.utf8EncodeChar := by
  rw [decodeStrict?, mapM_id_eq_some_iff]
  constructor
  · intro h
    induction hlength : bytes.length using Nat.strong_induction_on generalizing bytes text with
    | h n ih =>
      cases bytes with
      | nil =>
        obtain rfl : text = [] := by simpa [items, itemsFrom] using h
        rfl
      | cons b bytes =>
        obtain ⟨v,front,rest,behind,hv,hbytes,rfl,hrest⟩ := sequence_of_strict h
        have hencode := hv.encode
        have hlt : rest.length < n := by
          have hfront : 0 < front.length := by cases hv <;> exact Nat.succ_pos _
          rw [← hlength, hbytes, List.length_append]
          omega
        rw [hbytes, List.flatMap_cons, hencode, ← ih _ hlt hrest rfl]
  · rintro rfl
    induction text with
    | nil => rfl
    | cons c text ih =>
      rw [List.flatMap_cons, (sequence_encode c).items, ih, Char.ofNat_toNat]
      rfl

end WebAtlas.Utf8
