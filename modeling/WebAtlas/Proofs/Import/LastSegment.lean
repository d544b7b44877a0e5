import WebAtlas.Import.Resolution
import WebAtlas.Import.Statement
import WebAtlas.Proofs.Path.Append
import WebAtlas.Proofs.Text.Scan

/-! # The last segment of a specifier

The path that a specifier means ends in the last segment of the specifier, unless that is a dot or two,
or the alias prefix reaches into it. Then the path lies at most one name below the project root.
-/
namespace WebAtlas

namespace Path

/-- What stands before a slash and what stands after it are read on their own. -/
theorem parse_append_slash (front back : String) :
    (parse (front ++ "/" ++ back)).segments = (parse front).segments ++ (parse back).segments := by
  have hslash : "/".toList = ['/'] := rfl
  simp only [parse, pieces, Text.splitOn, String.toList_append, hslash, List.append_assoc,
    List.singleton_append, List.splitOn_append_cons_self, List.map_append, List.filter_append]

theorem parse_single {name : String} (h : '/' ∉ name.toList) :
    (parse name).segments = [name].filter (!isVoid ·) := by
  rw [parse, pieces, Text.splitOn, List.splitOn_eq_singleton h, List.map_singleton,
    String.ofList_toList]

/-- Slashes at the end of a text name nothing. -/
theorem parse_append_slashes (name : String) (n : Nat) :
    (parse (name ++ String.ofList (List.replicate n '/'))).segments = (parse name).segments := by
  induction n generalizing name with
  | zero => simp
  | succ n ih =>
    have hcut : name ++ String.ofList (List.replicate (n + 1) '/') =
        name ++ "/" ++ ("" ++ String.ofList (List.replicate n '/')) := by
      simp [← String.toList_inj, List.replicate_succ]
    rw [hcut, parse_append_slash, ih ""]
    exact List.append_nil _

/-- Normalising a path keeps its last segment unless that steps up. -/
theorem normalize_snoc {p : Path} {before : List String} {name : String}
    (h : p.segments = before ++ [name]) (hn : name ≠ "..") :
    ∃ dir, p.normalize.segments = dir ++ [name] := by
  have hpush : ∀ stack, push p.isAbsolute stack name = name :: stack := fun _ => if_pos hn
  exact ⟨_,by rw [normalize, h, List.foldl_append, List.foldl_cons, List.foldl_nil, hpush,
    List.reverse_cons]⟩

theorem push_length_le (rooted : Bool) (stack : List String) (segment : String) :
    (push rooted stack segment).length ≤ stack.length + 1 := by
  unfold push
  split
  · rfl
  · split
    · split <;> simp
    · split
      · simp
      · simp only [List.length_cons]
        omega

theorem normalize_length_le (p : Path) : p.normalize.segments.length ≤ p.segments.length := by
  have hpush : ∀ segments stack : List String,
      (segments.foldl (push p.isAbsolute) stack).length ≤ stack.length + segments.length := by
    intro segments
    induction segments with
    | nil => exact fun stack => Nat.le_refl _
    | cons segment segments ih =>
      intro stack
      have hstep := push_length_le p.isAbsolute stack segment
      have hrest := ih (push p.isAbsolute stack segment)
      rw [List.foldl_cons, List.length_cons]
      omega
  rw [normalize, List.length_reverse]
  exact (hpush p.segments []).trans (by simp)

end Path

namespace Import
variable {root importer : Path} {aliasPrefix target : String}

def slashes (n : Nat) : String := String.ofList (List.replicate n '/')

theorem toList_slashes (n : Nat) : (slashes n).toList = List.replicate n '/' := String.toList_ofList

/-- A specifier is its last segment, perhaps behind a slash, and slashes after it. -/
theorem lastSegment_split (target : String) : '/' ∉ (lastSegment target).toList ∧ ∃ n,
    (target = lastSegment target ++ slashes n ∨ lastSegment target ≠ "" ∧
      ∃ front, target = front ++ "/" ++ (lastSegment target ++ slashes n)) := by
  let reversed := target.toList.reverse.dropWhile (· == '/')
  let last := reversed.takeWhile (· ≠ '/')
  obtain ⟨n,hn⟩ : ∃ n, target.toList.reverse.takeWhile (· == '/') = List.replicate n '/' :=
    ⟨_,List.eq_replicate_iff.mpr ⟨rfl,fun c hc => by simpa using List.mem_takeWhile_imp hc⟩⟩
  have hsegment : (lastSegment target).toList = last.reverse := String.toList_ofList
  have hslash : '/' ∉ last := fun h => by simpa using List.mem_takeWhile_imp h
  have htarget : target.toList.reverse =
      List.replicate n '/' ++ (last ++ reversed.dropWhile (· ≠ '/')) := by
    rw [List.takeWhile_append_dropWhile, ← hn, List.takeWhile_append_dropWhile]
  refine ⟨by simpa [hsegment] using hslash,n,?_⟩
  cases hrest : reversed.dropWhile (· ≠ '/') with
  | nil =>
    left
    rw [hrest, List.append_nil] at htarget
    rw [← String.toList_inj, String.toList_append, toList_slashes, hsegment,
      ← List.reverse_reverse target.toList, htarget]
    simp
  | cons c front =>
    right
    obtain rfl : c = '/' := by
      have h := @Text.head?_dropWhile reversed (· ≠ '/') c (by rw [hrest]; rfl)
      simpa using h
    have hlast : last ≠ [] := by
      intro hnil
      have hreversed : reversed = '/' :: front := by
        rw [← List.takeWhile_append_dropWhile (p := (· ≠ '/')) (l := reversed), hrest]
        exact congrArg (· ++ _) hnil
      have h := @Text.head?_dropWhile target.toList.reverse (· == '/') '/'
        (by rw [show target.toList.reverse.dropWhile (· == '/') = _ from hreversed]; rfl)
      simp at h
    rw [hrest] at htarget
    refine ⟨?_,String.ofList front.reverse,?_⟩
    · intro hempty
      rw [hempty] at hsegment
      exact hlast (List.reverse_eq_nil_iff.mp hsegment.symm)
    · have hchar : "/".toList = ['/'] := rfl
      rw [← String.toList_inj, ← List.reverse_reverse target.toList, htarget]
      simp [hsegment, hchar, toList_slashes]

theorem lastSegment_of_split {last : String} (hl : '/' ∉ last.toList) (hne : last ≠ "")
    (front : String) (n : Nat) : lastSegment (front ++ "/" ++ (last ++ slashes n)) = last := by
  have hchar : "/".toList = ['/'] := rfl
  have hreversed : (front ++ "/" ++ (last ++ slashes n)).toList.reverse =
      List.replicate n '/' ++ (last.toList.reverse ++ '/' :: front.toList.reverse) := by
    simp [hchar, toList_slashes]
  have hbackwards : '/' ∉ last.toList.reverse := fun h => hl (List.mem_reverse.mp h)
  obtain ⟨c,rest,hlast⟩ := List.exists_cons_of_ne_nil (l := last.toList.reverse) (by simpa using hne)
  have hc : c ≠ '/' := ne_of_mem_of_not_mem (hlast ▸ List.mem_cons_self) hbackwards
  have hdrop : (List.replicate n '/' ++ (last.toList.reverse ++ '/' :: front.toList.reverse)).dropWhile
      (· == '/') = last.toList.reverse ++ '/' :: front.toList.reverse :=
    Text.dropWhile_append (by simp) (by simp [hlast, hc])
  unfold lastSegment
  rw [hreversed, hdrop]
  dsimp only
  rw [Text.takeWhile_ne hbackwards, List.reverse_reverse, String.ofList_toList]

theorem afterAlias?_eq_some_iff {rest : String} : afterAlias? aliasPrefix target = some rest ↔
    aliasPrefix ≠ "" ∧ target = aliasPrefix ++ rest := by
  unfold afterAlias?
  split
  · simp_all
  · rename_i hne
    simp only [Option.map_eq_some_iff, Text.afterWord_eq_some_iff, ne_eq, hne, not_false_eq_true,
      true_and]
    constructor
    · rintro ⟨text,htext,rfl⟩
      simp [← String.toList_inj, htext]
    · rintro rfl
      exact ⟨rest.toList,by simp,String.ofList_toList⟩

/-- A path read from a directory goes on with the segments of what is read, if there are any. -/
theorem join_snoc {dir p : Path} {before : List String} {name : String}
    (h : p.segments = before ++ [name]) : ∃ front, (dir.join p).segments = front ++ [name] := by
  unfold Path.join
  split
  · exact ⟨before,h⟩
  · exact ⟨dir.segments ++ before,by rw [h, List.append_assoc]⟩

theorem join_length_le (dir p : Path) :
    (dir.join p).segments.length ≤ dir.segments.length + p.segments.length := by
  unfold Path.join
  split
  · exact Nat.le_add_left _ _
  · exact (List.length_append).le

/-- The segments of a specifier end in its last segment, unless that names nothing. -/
theorem parse_snoc (h : Path.isVoid (lastSegment target) = false) :
    ∃ before, (Path.parse target).segments = before ++ [lastSegment target] := by
  obtain ⟨hslash,n,hsplit⟩ := lastSegment_split target
  have hsingle : (Path.parse (lastSegment target ++ slashes n)).segments = [lastSegment target] := by
    rw [slashes, Path.parse_append_slashes, Path.parse_single hslash,
      List.filter_cons_of_pos (by simp [h]), List.filter_nil]
  rcases hsplit with heq | ⟨-,front,heq⟩
  · exact ⟨[],by rw [← hsingle, ← heq]; rfl⟩
  · refine ⟨(Path.parse front).segments,?_⟩
    rw [← hsingle, ← Path.parse_append_slash, ← heq]

theorem lastSegment_append {rest front : String} {n : Nat} (hslash : '/' ∉ (lastSegment rest).toList)
    (hne : lastSegment rest ≠ "") (h : rest = front ++ "/" ++ (lastSegment rest ++ slashes n))
    (aliasPrefix : String) : lastSegment (aliasPrefix ++ rest) = lastSegment rest :=
  calc lastSegment (aliasPrefix ++ rest)
      = lastSegment (aliasPrefix ++ (front ++ "/" ++ (lastSegment rest ++ slashes n))) :=
        congrArg (fun text => lastSegment (aliasPrefix ++ text)) h
    _ = lastSegment (aliasPrefix ++ front ++ "/" ++ (lastSegment rest ++ slashes n)) := by
        simp only [String.append_assoc]
    _ = lastSegment rest := lastSegment_of_split hslash hne _ n

/-- A specifier that starts with a dot has more than slashes in it. -/
theorem lastSegment_ne_empty (h : target.toList.head? = some '.') : lastSegment target ≠ "" := by
  intro hempty
  obtain ⟨-,n,hwhole | ⟨hne,-⟩⟩ := lastSegment_split target
  · rw [hempty, String.empty_append] at hwhole
    rw [hwhole, toList_slashes, List.head?_replicate] at h
    split at h
    · cases h
    · exact absurd (Option.some.inj h) (by decide)
  · exact hne hempty

theorem isVoid_eq_false {piece : String} (hempty : piece ≠ "") (hdot : piece ≠ ".") :
    Path.isVoid piece = false := by
  rw [Path.isVoid, Bool.or_eq_false_iff]
  exact ⟨beq_false_of_ne hempty,beq_false_of_ne hdot⟩

theorem normalize_join_snoc {dir : Path} (hempty : lastSegment target ≠ "")
    (hdot : lastSegment target ≠ ".") (hup : lastSegment target ≠ "..") :
    ∃ front, (dir.join (Path.parse target)).normalize.segments = front ++ [lastSegment target] := by
  obtain ⟨before,hbefore⟩ := parse_snoc (isVoid_eq_false hempty hdot)
  obtain ⟨front,hfront⟩ := @join_snoc dir _ _ _ hbefore
  exact Path.normalize_snoc hfront hup

/-- The path that a local specifier means ends in the last segment of the specifier, or it lies at most
one name below the root, when the alias prefix reaches into that segment. -/
theorem base_ends (hlocal : isLocal aliasPrefix target = true) (hdot : lastSegment target ≠ ".")
    (hup : lastSegment target ≠ "..") :
    (∃ dir, (base root importer aliasPrefix target).segments = dir ++ [lastSegment target]) ∨
      (base root importer aliasPrefix target).segments.length ≤ root.segments.length + 1 := by
  unfold base
  cases halias : afterAlias? aliasPrefix target with
  | none =>
    left
    have hhead : target.toList.head? = some '.' := by
      simp only [isLocal, Bool.or_eq_true, beq_iff_eq, Bool.and_eq_true, bne_iff_ne] at hlocal
      rcases hlocal with hhead | ⟨hne,hsome⟩
      · exact hhead
      · obtain ⟨text,htext⟩ := Option.isSome_iff_exists.mp hsome
        rw [afterAlias?, if_neg hne, htext] at halias
        cases halias
    exact normalize_join_snoc (lastSegment_ne_empty hhead) hdot hup
  | some rest =>
    obtain ⟨-,rfl⟩ := afterAlias?_eq_some_iff.mp halias
    obtain ⟨hslash,n,hwhole | ⟨hne,front,hcut⟩⟩ := lastSegment_split rest
    · right
      have hsegments : (Path.parse rest).segments.length ≤ 1 := by
        rw [hwhole, slashes, Path.parse_append_slashes, Path.parse_single hslash]
        exact List.length_filter_le _ _
      exact (Path.normalize_length_le _).trans ((join_length_le _ _).trans (by omega))
    · left
      have hsame := lastSegment_append hslash hne hcut aliasPrefix
      rw [hsame] at hdot hup ⊢
      exact normalize_join_snoc hne hdot hup

end Import
end WebAtlas
