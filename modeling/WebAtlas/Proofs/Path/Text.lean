import WebAtlas.Path.Basic
import Mathlib.Algebra.Ring.Nat

/-! # Written paths

Names without slashes, joined by slashes, are read back as they were, and the length of the written
form is that of the names and of the slashes between them.
-/
namespace WebAtlas.Path

theorem pieces_intercalate {names : List String} (h : ∀ n ∈ names, '/' ∉ n.toList)
    (hn : names ≠ []) : pieces ("/".intercalate names) = names := by
  have hsplit : (['/'].intercalate (names.map String.toList)).splitOn '/' =
      names.map String.toList := by
    apply List.splitOn_intercalate
    · intro l hl
      obtain ⟨n,hn,rfl⟩ := List.mem_map.mp hl
      exact h n hn
    · simpa using hn
  have hslash : "/".toList = ['/'] := rfl
  rw [pieces, Text.splitOn, String.toList_intercalate, hslash, hsplit, List.map_map]
  exact (List.map_congr_left fun n _ => String.ofList_toList).trans (List.map_id names)

theorem ofChars_of_head {text : List Char} (h : text.head? ≠ some '/') :
    Anchor.ofChars text = .relative := by
  cases text with
  | nil => rfl
  | cons c text =>
    have hc : c ≠ '/' := by simpa using h
    simp [Anchor.ofChars, hc]

/-- Names joined by slashes are read as the relative path with these segments. -/
theorem parse_intercalate {names : List String} (h : ∀ n ∈ names, '/' ∉ n.toList)
    (hv : ∀ n ∈ names, isVoid n = false) : parse ("/".intercalate names) = ⟨.relative,names⟩ := by
  cases names with
  | nil => rfl
  | cons name rest =>
    have ha : Anchor.ofChars ("/".intercalate (name :: rest)).toList = .relative := by
      apply ofChars_of_head
      have hname : name.toList ≠ [] := by
        intro he
        have hvoid := hv name List.mem_cons_self
        rw [String.toList_eq_nil_iff.mp he] at hvoid
        cases hvoid
      obtain ⟨c,text,hc⟩ := List.exists_cons_of_ne_nil hname
      have hslash : c ≠ '/' := by
        rintro rfl
        exact h name List.mem_cons_self (by simp [hc])
      cases rest with
      | nil => simp [hc, hslash]
      | cons next rest => simp [String.intercalate_cons_cons, hc, hslash]
    have hf : (name :: rest).filter (!isVoid ·) = name :: rest :=
      List.filter_eq_self.mpr fun n hn => by simp [hv n hn]
    rw [parse, ha, pieces_intercalate h (List.cons_ne_nil _ _), hf]

theorem utf8ByteSize_intercalate {name : String} {names : List String} :
    ("/".intercalate (name :: names)).utf8ByteSize =
      name.utf8ByteSize + (names.map fun n => 1 + n.utf8ByteSize).sum := by
  induction names generalizing name with
  | nil => simp
  | cons next rest ih =>
    have hslash : "/".utf8ByteSize = 1 := rfl
    rw [String.intercalate_cons_cons, String.utf8ByteSize_append, String.utf8ByteSize_append, ih,
      hslash, List.map_cons, List.sum_cons]
    omega

/-- A path from the root takes one byte more for each segment than the segment itself. -/
theorem utf8ByteSize_text {name : String} {names : List String} :
    (Path.mk .root (name :: names)).text.utf8ByteSize =
      ((name :: names).map fun n => 1 + n.utf8ByteSize).sum := by
  have hslash : Anchor.root.text.utf8ByteSize = 1 := rfl
  rw [text, if_neg (by simp), String.utf8ByteSize_append, utf8ByteSize_intercalate, hslash,
    List.map_cons, List.sum_cons]
  omega

end WebAtlas.Path
