import WebAtlas.Proofs.FileSystem.Alike
import WebAtlas.Proofs.Text.Decoding

/-! # Line feeds with and without carriage returns

Line ends may be written with a carriage return before the line feed. The decoder takes both for
themselves wherever they come, also in the middle of a character, so one that is added among the bytes
is added among the characters, and unifying line ends takes it away again.
-/
namespace WebAtlas.Utf8

/-- A text, and the text with `ret` before some occurrences of `feed`. -/
inductive Returned {α : Type} (ret feed : α) : List α → List α → Prop
  | nil : Returned ret feed [] []
  | keep (a : α) {text text' : List α} (h : Returned ret feed text text') :
    Returned ret feed (a :: text) (a :: text')
  | insert {text text' : List α} (h : Returned ret feed text text') :
    Returned ret feed (feed :: text) (ret :: feed :: text')

/-- Puts carriage returns before the line feeds at chosen places. -/
def withReturns (chosen : Nat → Bool) : List UInt8 → List UInt8
  | [] => []
  | b :: bytes =>
    if b = 0x0A && chosen 0 then 0x0D :: b :: withReturns (chosen <| · + 1) bytes
    else b :: withReturns (chosen <| · + 1) bytes

variable {bytes bytes' : List UInt8}

theorem withReturns_returned (chosen : Nat → Bool) (bytes : List UInt8) :
    Returned 0x0D 0x0A bytes (withReturns chosen bytes) := by
  induction bytes generalizing chosen with
  | nil => exact .nil
  | cons b bytes ih =>
    rw [withReturns]
    split
    · rename_i hb
      obtain rfl : b = 0x0A := of_decide_eq_true (Bool.and_eq_true_iff.mp hb).1
      exact .insert (ih _)
    · exact .keep b (ih _)

theorem withReturns_of_none {chosen : Nat → Bool} (h : ∀ n, chosen n = false) (bytes : List UInt8) :
    withReturns chosen bytes = bytes := by
  induction bytes generalizing chosen with
  | nil => rfl
  | cons b bytes ih => simp [withReturns, h, ih]

theorem Returned.refl {α : Type} {ret feed : α} (text : List α) : Returned ret feed text text := by
  induction text with
  | nil => exact .nil
  | cons a text ih => exact .keep a ih

theorem Returned.append {α : Type} {ret feed : α} {text text' : List α} (front : List α)
    (h : Returned ret feed text text') : Returned ret feed (front ++ text) (front ++ text') := by
  induction front with
  | nil => exact h
  | cons a front ih => exact .keep a ih

theorem Returned.map {α β : Type} {ret feed : α} {text text' : List α} (f : α → β)
    (h : Returned ret feed text text') : Returned (f ret) (f feed) (text.map f) (text'.map f) := by
  induction h with
  | nil => exact .nil
  | keep a _ ih => exact .keep (f a) ih
  | insert _ ih => exact .insert ih

/-- A carriage return added among the bytes is one added among the items, whatever character it comes
in the middle of. -/
theorem Returned.itemsFrom (h : Returned 0x0D 0x0A bytes bytes') {st : State} (hst : st.Sound) :
    Returned (some '\r') (some '\n') (itemsFrom st bytes) (itemsFrom st bytes') := by
  induction h generalizing st with
  | nil => exact .refl _
  | keep b _ ih =>
    rw [itemsFrom_cons, itemsFrom_cons]
    exact (ih (step_sound hst b)).append _
  | @insert bytes bytes' _ ih =>
    have hfeed : (0x0A : UInt8) < 0x80 := by decide
    have hret : (0x0D : UInt8) < 0x80 := by decide
    rw [itemsFrom_cons, itemsFrom_cons, step_ascii hst hfeed, step_ascii hst hret, itemsFrom_cons,
      step_ascii start_sound hfeed, List.append_assoc, List.append_assoc]
    exact (Returned.insert (ih start_sound)).append _

theorem unifyLineEnds_cons_of_ne {c : Char} (hc : c ≠ '\r') (text : List Char) :
    unifyLineEnds (c :: text) = c :: unifyLineEnds text := by
  rw [unifyLineEnds_cons fun h => absurd h hc, if_neg hc]

theorem Returned.unifyLineEnds_eq {text text' : List Char} (h : Returned '\r' '\n' text text')
    (hno : '\r' ∉ text) : unifyLineEnds text = unifyLineEnds text' := by
  induction h with
  | nil => rfl
  | keep c _ ih =>
    obtain ⟨hc,hno⟩ := not_or.mp (List.mem_cons.not.mp hno)
    rw [unifyLineEnds_cons_of_ne (Ne.symm hc), unifyLineEnds_cons_of_ne (Ne.symm hc), ih hno]
  | insert _ ih =>
    rw [unifyLineEnds_cons_of_ne (by decide), ih (not_or.mp (List.mem_cons.not.mp hno)).2]
    rfl

/-- Strict decoding fails for both or gives texts that are unified alike. -/
theorem Returned.strict {items items' : List (Option Char)}
    (h : Returned (some '\r') (some '\n') items items') (hno : some '\r' ∉ items) :
    (items.mapM id).map unifyLineEnds = (items'.mapM id).map unifyLineEnds := by
  induction h with
  | nil => rfl
  | keep a _ ih =>
    obtain ⟨ha,hbehind⟩ := not_or.mp (List.mem_cons.not.mp hno)
    cases a with
    | none => rfl
    | some c =>
      have hc : c ≠ '\r' := fun h => ha (congrArg some h.symm)
      have hrest := congrArg (Option.map (c :: ·)) (ih hbehind)
      simp only [mapM_some_cons, Option.map_map, Function.comp_def] at hrest ⊢
      simpa only [unifyLineEnds_cons_of_ne hc] using hrest
  | insert _ ih =>
    have hrest := congrArg (Option.map ('\n' :: ·)) (ih (not_or.mp (List.mem_cons.not.mp hno)).2)
    have hfeed : ∀ text, unifyLineEnds ('\n' :: text) = '\n' :: unifyLineEnds text :=
      unifyLineEnds_cons_of_ne (by decide)
    have hret : ∀ text, unifyLineEnds ('\r' :: '\n' :: text) = '\n' :: unifyLineEnds text := fun _ => rfl
    simp only [mapM_some_cons, Option.map_map, Function.comp_def] at hrest ⊢
    simpa only [hfeed, hret] using hrest

/-- Carriage returns before line feeds do not change the text that bytes without any are read as. -/
theorem Returned.sameText (h : Returned 0x0D 0x0A bytes bytes') (hno : 0x0D ∉ bytes) :
    Source.SameText bytes bytes' := by
  have hitems := h.itemsFrom start_sound
  have hnone := carriageReturn_not_mem_items hno
  have hchars : '\r' ∉ decode bytes := by
    intro hmem
    obtain ⟨item,hitem,heq⟩ := List.mem_map.mp hmem
    cases item with
    | none => cases heq
    | some c => exact hnone (congrArg some heq ▸ hitem)
  have htext : unifyLineEnds (decode bytes) = unifyLineEnds (decode bytes') :=
    (hitems.map (·.getD '\uFFFD')).unifyLineEnds_eq hchars
  exact ⟨congrArg String.ofList htext,hitems.strict hnone⟩

end WebAtlas.Utf8
