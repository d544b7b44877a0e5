import Mathlib.Algebra.BigOperators.Group.Finset.Basic
import Mathlib.Algebra.GroupWithZero.Nat

/-! # Lists without repetitions

Dropping repetitions keeps the first of equal elements, in the order in which they came first. Counted
by what they are, the elements of a list add up to its length.
-/
namespace WebAtlas

/-- What is left of some results stands in the order of the first arguments that gave them. -/
theorem eraseDups_filterMap_pairwise {α β : Type} [DecidableEq β] (f : α → Option β) (l : List α) :
    (l.filterMap f).eraseDups.Pairwise
      fun a b => l.findIdx (f · == some a) < l.findIdx (f · == some b) := by
  induction l generalizing f with
  | nil => simp
  | cons x xs ih =>
    cases hx : f x with
    | none =>
      rw [List.filterMap_cons_none hx]
      refine (ih f).imp ?_
      intro a b hab
      simpa [List.findIdx_cons, hx] using hab
    | some c =>
      rw [List.filterMap_cons_some hx, List.eraseDups_cons, List.pairwise_cons]
      have hmem : ∀ b ∈ ((xs.filterMap f).filter fun b => !b == c).eraseDups, c ≠ b := by
        intro b hb hc
        rw [List.mem_eraseDups, List.mem_filter] at hb
        simp [hc] at hb
      constructor
      · intro b hb
        simp [List.findIdx_cons, hx, beq_false_of_ne (hmem b hb)]
      · have hrest := ih fun y => (f y).filter fun b => !b == c
        rw [← List.filter_filterMap] at hrest
        refine hrest.imp_of_mem ?_
        intro a b ha hb hab
        have hsame : ∀ d, c ≠ d → ∀ y,
            ((f y).filter (fun b => !b == c) == some d) = (f y == some d) := by
          intro d hd y
          rw [Bool.eq_iff_iff, beq_iff_eq, beq_iff_eq, Option.filter_eq_some_iff]
          simp [hd.symm]
        simp only [hsame a (hmem a ha), hsame b (hmem b hb)] at hab
        have hne : ∀ d, c ≠ d → (some c == some d) = false :=
          fun d hd => beq_false_of_ne fun h => hd (Option.some.inj h)
        rw [List.findIdx_cons, List.findIdx_cons, hx, hne a (hmem a ha), hne b (hmem b hb)]
        exact Nat.succ_lt_succ hab

theorem nodup_eraseDups {α : Type} [DecidableEq α] (l : List α) : l.eraseDups.Nodup := by
  have h := eraseDups_filterMap_pairwise some l
  rw [List.filterMap_some] at h
  refine h.imp ?_
  rintro a b hab rfl
  exact Nat.lt_irrefl _ hab

/-- Elements that do not repeat are found at rising places. -/
theorem pairwise_idxOf {α : Type} [DecidableEq α] {l : List α} (h : l.Nodup) :
    l.Pairwise fun a b => l.idxOf a < l.idxOf b := by
  rw [List.pairwise_iff_getElem]
  intro i j hi hj hij
  rwa [h.idxOf_getElem i hi, h.idxOf_getElem j hj]

/-- Counted along a list that holds them all, the elements of another add up to its length. -/
theorem sum_count_of_subset {α : Type} [DecidableEq α] {kinds l : List α} (hn : kinds.Nodup)
    (h : ∀ a ∈ l, a ∈ kinds) : (kinds.map l.count).sum = l.length := by
  have hsub : ∀ a ∈ (l : Multiset α), a ∈ kinds.toFinset := fun a ha => List.mem_toFinset.mpr (h a ha)
  have hcount := Multiset.sum_count_eq_card hsub
  rw [List.sum_toFinset _ hn] at hcount
  simpa using hcount

/-- How often each distinct element stands in a list adds up to the length of the list. -/
theorem sum_count_eraseDups {α : Type} [DecidableEq α] (l : List α) :
    (l.eraseDups.map l.count).sum = l.length :=
  sum_count_of_subset (nodup_eraseDups l) fun _ ha => List.mem_eraseDups.mpr ha

end WebAtlas
