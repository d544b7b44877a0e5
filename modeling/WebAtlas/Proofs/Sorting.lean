import Mathlib.Data.List.Sort
import Mathlib.Data.Prod.Lex
import Mathlib.Data.String.Basic

/-! # Sorting by two keys

Reports list their records by a first key and, where that is the same, by a second one. A sorted list
holds the records that were found, in the order of their keys, and records with the same keys stay in
the order in which they were found.
-/
namespace WebAtlas
variable {α κ μ : Type} [LinearOrder κ] [LinearOrder μ]

/-- A test of order decides by a first key and then by a second one. -/
def SortsBy (le : α → α → Bool) (first : α → κ) (second : α → μ) : Prop :=
  ∀ a b, le a b = true ↔ first a < first b ∨ first a = first b ∧ second a ≤ second b

namespace SortsBy
variable {le : α → α → Bool} {first : α → κ} {second : α → μ}

theorem le_iff (h : SortsBy le first second) (a b : α) :
    le a b = true ↔ toLex (first a,second a) ≤ toLex (first b,second b) := by
  rw [Prod.Lex.toLex_le_toLex]
  exact h a b

theorem trans (h : SortsBy le first second) (a b c : α) (hab : le a b = true) (hbc : le b c = true) :
    le a c = true := by
  rw [h.le_iff] at hab hbc ⊢
  exact hab.trans hbc

theorem total (h : SortsBy le first second) (a b : α) : (le a b || le b a) = true := by
  rw [Bool.or_eq_true, h.le_iff, h.le_iff]
  exact le_total _ _

theorem antisymm (h : SortsBy le first second) (hinj : Function.Injective second) (a b : α)
    (hab : le a b = true) (hba : le b a = true) : a = b := by
  rw [h.le_iff] at hab hba
  exact hinj (Prod.mk.inj (toLex.injective (hab.antisymm hba))).2

theorem sorted (h : SortsBy le first second) (l : List α) :
    (l.mergeSort le).Pairwise fun a b => first a < first b ∨ first a = first b ∧ second a ≤ second b :=
  (List.pairwise_mergeSort h.trans h.total l).imp fun hab => (h _ _).mp hab

/-- Records with the same keys keep the order in which they were found. -/
theorem filter_mergeSort (h : SortsBy le first second) (k : κ) (m : μ) (l : List α) :
    (l.mergeSort le).filter (fun a => first a = k ∧ second a = m) =
      l.filter fun a => first a = k ∧ second a = m := by
  let ties := l.filter fun a => first a = k ∧ second a = m
  have htied : ∀ a ∈ ties, first a = k ∧ second a = m := fun a ha => by
    simpa using (List.mem_filter.mp ha).2
  have hordered : ties.Pairwise fun a b => le a b = true := by
    refine List.pairwise_of_forall_mem_list fun a ha b hb => (h a b).mpr (.inr ?_)
    rw [(htied a ha).1, (htied b hb).1, (htied a ha).2, (htied b hb).2]
    exact ⟨rfl,le_rfl⟩
  have hsub : ties.Sublist (l.mergeSort le) :=
    List.sublist_mergeSort h.trans h.total hordered List.filter_sublist
  have hkept : ties.filter (fun a => first a = k ∧ second a = m) = ties :=
    List.filter_eq_self.mpr fun a ha => by simpa using htied a ha
  have hties := hsub.filter fun a => first a = k ∧ second a = m
  rw [hkept] at hties
  refine (hties.eq_of_length_le ?_).symm
  exact ((List.mergeSort_perm l le).filter _).length_eq.le

/-- A relation that follows the order in which records were found still does among those with the same
keys. -/
theorem stable (h : SortsBy le first second) {R : α → α → Prop} {l : List α} (hl : l.Pairwise R) :
    (l.mergeSort le).Pairwise fun a b => first a = first b → second a = second b → R a b := by
  rw [List.pairwise_iff_forall_sublist] at hl ⊢
  intro a b hab hfirst hsecond
  have hties := hab.filter fun c => first c = first b ∧ second c = second b
  rw [h.filter_mergeSort] at hties
  have hkept : [a,b].filter (fun c => first c = first b ∧ second c = second b) = [a,b] := by
    simp [hfirst, hsecond]
  rw [hkept] at hties
  exact hl (hties.trans List.filter_sublist)

end SortsBy
end WebAtlas
