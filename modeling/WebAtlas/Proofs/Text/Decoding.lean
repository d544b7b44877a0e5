import WebAtlas.Text.Utf8
import Mathlib.Data.List.Basic
import Mathlib.Tactic.Ring

/-! # Decoding around ASCII bytes

No byte of a longer character is an ASCII byte, and no longer character decodes to an ASCII one. So an
ASCII byte ends whatever was being read and starts the decoder anew, and a line feed cuts both the
decoding and the unification of line ends into independent parts.
-/
namespace WebAtlas.Utf8
variable {st : State} {b : UInt8} {bytes : List UInt8} {c : Char}

/-- What a decoder yields when the bytes end, or an ASCII byte follows. -/
def State.unfinished : State → List (Option Char)
  | .start => []
  | .inside .. => [none]

/-- Inside a character only continuation bytes are accepted, and the least ones already lead to a
character beyond ASCII. -/
def State.Sound : State → Prop
  | .start => True
  | .inside missing bits low _ =>
    0x80 ≤ low.toNat ∧ 0x80 ≤ (bits * 64 + (low.toNat - 0x80)) * 64 ^ (missing - 1)

theorem start_sound : State.start.Sound := trivial

/-- The first lead byte of a length has no bits of its own, and its continuation starts higher. -/
theorem lead_sound {missing n : Nat} {lead least high : UInt8} (hn : lead.toNat = n)
    (hb : n ≤ b.toNat) (hm : missing - 1 ≠ 0) (hleast : (State.inside missing 0 least high).Sound) :
    (State.inside missing (b.toNat - n) (if b = lead then least else 0x80) high).Sound := by
  by_cases hlead : b = lead
  · rwa [if_pos hlead, hlead, hn, Nat.sub_self]
  · have hne : b.toNat ≠ n := fun h => hlead (UInt8.toNat_inj.mp (h.trans hn.symm))
    have hbits : 64 ≤ (b.toNat - n) * 64 := by omega
    rw [if_neg hlead]
    refine ⟨by decide,?_⟩
    calc 0x80 ≤ 64 * 64 := by decide
      _ ≤ (b.toNat - n) * 64 * 64 ^ (missing - 1) := Nat.mul_le_mul hbits (Nat.le_self_pow hm 64)

theorem first_sound (b : UInt8) : (first b).1.Sound := by
  unfold first
  split
  · trivial
  split
  · trivial
  rename_i h
  have hb : 0xC2 ≤ b.toNat := Nat.le_of_not_lt h
  split
  · exact ⟨by decide,by simp; omega⟩
  split
  · rename_i h _
    exact lead_sound rfl (Nat.le_of_not_lt h) (by decide) ⟨by decide,by decide⟩
  split
  · rename_i h _
    exact lead_sound rfl (Nat.le_of_not_lt h) (by decide) ⟨by decide,by decide⟩
  · trivial

theorem step_sound (h : st.Sound) (b : UInt8) : (step st b).1.Sound := by
  cases st with
  | start => exact first_sound b
  | inside missing bits low high =>
    obtain ⟨hlow,hbits⟩ := h
    rw [step]
    split
    · rename_i hb
      have hb : low.toNat ≤ b.toNat := of_decide_eq_true (Bool.and_eq_true_iff.mp hb).1
      dsimp only
      split
      · trivial
      · rename_i hm
        refine ⟨by decide,hbits.trans ?_⟩
        obtain ⟨n,rfl⟩ : ∃ n, missing = n + 2 := ⟨missing - 2,by omega⟩
        calc (bits * 64 + (low.toNat - 0x80)) * 64 ^ (n + 1)
            ≤ (bits * 64 + (b.toNat - 0x80)) * 64 ^ (n + 1) := by gcongr
          _ = ((bits * 64 + (b.toNat - 0x80)) * 64 + 0) * 64 ^ n := by ring
    · exact first_sound b

theorem first_ascii (hb : b < 0x80) : first b = (.start,[some (Char.ofNat b.toNat)]) := if_pos hb

/-- An ASCII byte stands for its character wherever it comes. -/
theorem step_ascii (h : st.Sound) (hb : b < 0x80) :
    step st b = (.start,st.unfinished ++ [some (Char.ofNat b.toNat)]) := by
  cases st with
  | start => exact first_ascii hb
  | inside missing bits low high =>
    have hlow : ¬ low ≤ b := fun hle =>
      absurd (Nat.lt_of_le_of_lt (h.1.trans (UInt8.le_iff_toNat_le.mp hle)) hb) (Nat.lt_irrefl _)
    rw [step, if_neg (by simp [hlow]), first_ascii hb]
    rfl

theorem itemsFrom_nil (st : State) : itemsFrom st [] = st.unfinished := by
  cases st <;> rfl

theorem itemsFrom_cons (st : State) (b : UInt8) (bytes : List UInt8) :
    itemsFrom st (b :: bytes) = (step st b).2 ++ itemsFrom (step st b).1 bytes := by
  cases st <;> rfl

theorem mapM_some_cons (c : Char) (items : List (Option Char)) :
    (some c :: items).mapM id = (items.mapM id).map (c :: ·) := by
  rw [List.mapM_cons]
  cases items.mapM id <;> rfl

/-- An ASCII byte cuts the items in two. -/
theorem itemsFrom_append_ascii (h : st.Sound) (hb : b < 0x80) (front back : List UInt8) :
    itemsFrom st (front ++ b :: back) =
      itemsFrom st front ++ some (Char.ofNat b.toNat) :: itemsFrom .start back := by
  induction front generalizing st with
  | nil => rw [List.nil_append, itemsFrom_cons, step_ascii h hb, itemsFrom_nil, List.append_assoc]; rfl
  | cons d front ih =>
    rw [List.cons_append, itemsFrom_cons, itemsFrom_cons, ih (step_sound h d), List.append_assoc]

theorem items_append_ascii (hb : b < 0x80) (front back : List UInt8) :
    items (front ++ b :: back) = items front ++ some (Char.ofNat b.toNat) :: items back :=
  itemsFrom_append_ascii start_sound hb front back

theorem decode_append_lineFeed (front back : List UInt8) :
    decode (front ++ 0x0A :: back) = decode front ++ '\n' :: decode back := by
  rw [decode, items_append_ascii (by decide), List.map_append]
  rfl

theorem toNat_ofNat_cases (n : Nat) : (Char.ofNat n).toNat = n ∨ Char.ofNat n = '\x00' := by
  by_cases h : n.isValidChar
  · exact .inl (by rw [Char.ofNat, dif_pos h]; rfl)
  · exact .inr (by rw [Char.ofNat, dif_neg h]; rfl)

theorem byte_of_mem_first (h : some c ∈ (first b).2) (hnul : c ≠ '\x00') : b.toNat = c.toNat := by
  unfold first at h
  repeat' split at h
  · obtain rfl : c = Char.ofNat b.toNat := by simpa using h
    exact ((toNat_ofNat_cases _).resolve_right hnul).symm
  all_goals simp at h

/-- An ASCII character other than NUL comes from its own byte. -/
theorem byte_of_mem_step (hst : st.Sound) (h : some c ∈ (step st b).2) (hc : c.toNat < 0x80)
    (hnul : c ≠ '\x00') : b.toNat = c.toNat := by
  cases st with
  | start => exact byte_of_mem_first h hnul
  | inside missing bits low high =>
    rw [step] at h
    split at h
    · rename_i hb
      have hb : low.toNat ≤ b.toNat := of_decide_eq_true (Bool.and_eq_true_iff.mp hb).1
      dsimp only at h
      split at h
      · rename_i hm
        have hchar : c = Char.ofNat (bits * 64 + (b.toNat - 0x80)) := by simpa using h
        rw [hchar] at hnul
        rw [hchar, (toNat_ofNat_cases _).resolve_right hnul] at hc
        have hbits := hst.2
        rw [Nat.sub_eq_zero_of_le hm, pow_zero, mul_one] at hbits
        omega
      · simp at h
    · exact byte_of_mem_first (by simpa using h) hnul

theorem byte_of_mem_itemsFrom (hst : st.Sound) (h : some c ∈ itemsFrom st bytes)
    (hc : c.toNat < 0x80) (hnul : c ≠ '\x00') : ∃ b ∈ bytes, b.toNat = c.toNat := by
  induction bytes generalizing st with
  | nil =>
    rw [itemsFrom_nil] at h
    cases st <;> simp [State.unfinished] at h
  | cons b bytes ih =>
    rw [itemsFrom_cons] at h
    rcases List.mem_append.mp h with h | h
    · exact ⟨b,List.mem_cons_self,byte_of_mem_step hst h hc hnul⟩
    · obtain ⟨b',hb',heq⟩ := ih (step_sound hst b) h
      exact ⟨b',List.mem_cons_of_mem _ hb',heq⟩

theorem carriageReturn_not_mem_items (h : 0x0D ∉ bytes) : some '\r' ∉ items bytes := by
  intro hmem
  obtain ⟨b,hb,heq⟩ := byte_of_mem_itemsFrom start_sound hmem (by decide) (by decide)
  obtain rfl : b = 0x0D := UInt8.toNat_inj.mp heq
  exact h hb

theorem unifyLineEnds_cons {text : List Char} (h : c = '\r' → text.head? ≠ some '\n') :
    unifyLineEnds (c :: text) = (if c = '\r' then '\n' else c) :: unifyLineEnds text := by
  rw [unifyLineEnds]
  rintro text rfl rfl
  exact h rfl rfl

/-- A line feed cuts a text in two; it swallows a carriage return right before it. -/
theorem unifyLineEnds_append_lineFeed (front back : List Char) : ∃ lines,
    unifyLineEnds (front ++ '\n' :: back) = lines ++ '\n' :: unifyLineEnds back ∧
    (unifyLineEnds front = lines ∨ unifyLineEnds front = lines ++ ['\n']) := by
  induction front using unifyLineEnds.induct with
  | case1 => exact ⟨[],unifyLineEnds_cons (by simp),.inl rfl⟩
  | case2 text ih =>
    obtain ⟨lines,hwhole,hfront⟩ := ih
    exact ⟨'\n' :: lines,congrArg (List.cons '\n') hwhole,
      hfront.imp (congrArg (List.cons '\n')) (congrArg (List.cons '\n'))⟩
  | case3 c text hnext ih =>
    have hhead : c = '\r' → text.head? ≠ some '\n' := by
      rintro rfl htext
      obtain ⟨rest,rfl⟩ := List.head?_eq_some_iff.mp htext
      exact hnext rest rfl rfl
    by_cases hlast : c = '\r' ∧ text = []
    · obtain ⟨rfl,rfl⟩ := hlast
      exact ⟨[],rfl,.inr rfl⟩
    · have hbehind : c = '\r' → (text ++ '\n' :: back).head? ≠ some '\n' := by
        intro hc
        obtain ⟨d,text,rfl⟩ := List.exists_cons_of_ne_nil fun h => hlast ⟨hc,h⟩
        exact hhead hc
      obtain ⟨lines,hwhole,hfront⟩ := ih
      refine ⟨(if c = '\r' then '\n' else c) :: lines,?_,?_⟩
      · rw [List.cons_append, unifyLineEnds_cons hbehind, hwhole, List.cons_append]
      · rw [unifyLineEnds_cons hhead]
        exact hfront.imp (congrArg (List.cons _)) (congrArg (List.cons _))

end WebAtlas.Utf8
