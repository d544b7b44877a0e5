import WebAtlas.Proofs.Walk.Sources
import WebAtlas.Proofs.FileSystem.RealDirectory
import WebAtlas.Proofs.Path.Text

/-! # The cap on source files

A capped collection takes the files of a walk one by one and tests the cap before it looks at a file. So
it finds the first source files up to the cap, and it warns when any file at all comes after them.
-/
namespace WebAtlas.Walk
open FileSystem
variable {fs : FileSystem} {policy : WalkPolicy} {cap : Int} {start : Path} {visits : List Visit}

/-- A file comes after the first `count` source files. -/
def Exceeds (count : Nat) (files : List Path) : Prop :=
  ∃ front p back, files = front ++ p :: back ∧ front.countP Source.isSource = count

theorem exceeds_zero_iff {files : List Path} : Exceeds 0 files ↔ files ≠ [] := by
  constructor
  · rintro ⟨front,p,back,rfl,-⟩
    exact List.append_ne_nil_of_right_ne_nil _ (List.cons_ne_nil _ _)
  · intro hne
    obtain ⟨p,back,rfl⟩ := List.exists_cons_of_ne_nil hne
    exact ⟨[],p,back,rfl,rfl⟩

theorem exceeds_cons_iff {p : Path} {files : List Path} {count left : Nat}
    (hleft : count = left + if Source.isSource p then 1 else 0) (hcount : count ≠ 0) :
    Exceeds count (p :: files) ↔ Exceeds left files := by
  have hp : ∀ front, (p :: front).countP Source.isSource = count ↔
      front.countP Source.isSource = left := by
    intro front
    rw [List.countP_cons]
    omega
  constructor
  · rintro ⟨front,q,back,hfiles,hfront⟩
    cases front with
    | nil => exact absurd hfront.symm hcount
    | cons p' front =>
      obtain ⟨rfl,rfl⟩ := List.cons.inj hfiles
      exact ⟨front,q,back,rfl,(hp front).mp hfront⟩
  · rintro ⟨front,q,back,rfl,hfront⟩
    exact ⟨p :: front,q,back,rfl,(hp front).mpr hfront⟩

/-- The cap is met when a file comes after the source files that it leaves room for. -/
theorem beforeCap_capped_iff (cap : Int) (taken : Nat) (visits : List Visit) :
    (beforeCap cap taken visits).2 = true ↔
      Exceeds (cap - taken).toNat (visits.filterMap Visit.file?) := by
  induction visits generalizing taken with
  | nil => simp [beforeCap, Exceeds]
  | cons visit visits ih =>
    cases visit with
    | tooDeep dir => exact ih taken
    | file p =>
      have hfiles : (Visit.file p :: visits).filterMap Visit.file? =
          p :: visits.filterMap Visit.file? := rfl
      rw [beforeCap, hfiles]
      split
      · rename_i hfull
        have hnone : (cap - taken).toNat = 0 := by omega
        rw [hnone]
        exact iff_of_true rfl (exceeds_zero_iff.mpr (List.cons_ne_nil _ _))
      · rename_i hfree
        refine (ih _).trans (exceeds_cons_iff ?_ (by omega)).symm
        split <;> omega

/-- The cap is tested before a file is looked at, so it is one file too many that meets it. -/
example : (beforeCap 1 0 [.file ⟨.root,["a.ts"]⟩,.file ⟨.root,["notes.md"]⟩]).2 = true ∧
    (beforeCap 1 0 [.file ⟨.root,["notes.md"]⟩,.file ⟨.root,["a.ts"]⟩]).2 = false ∧
    (beforeCap (-1) 0 [.tooDeep ⟨.root,["b"]⟩]).2 = false := by
  decide

/-- Where the cap is not met, nothing of the walk is left out. -/
theorem beforeCap_of_not_capped {taken : Nat} (h : (beforeCap cap taken visits).2 = false) :
    (beforeCap cap taken visits).1 = visits := by
  induction visits generalizing taken with
  | nil => rfl
  | cons visit visits ih =>
    cases visit with
    | tooDeep dir => exact congrArg (_ :: ·) (ih h)
    | file p =>
      rw [beforeCap] at h ⊢
      split at h
      · cases h
      · rename_i hfree
        rw [if_neg hfree]
        exact congrArg (_ :: ·) (ih h)

theorem capWarning_not_mem (cap : Int) (visits : List Visit) :
    capWarning cap ∉ visits.filterMap depthWarning? := by
  intro h
  obtain ⟨visit,-,hvisit⟩ := List.mem_filterMap.mp h
  cases visit with
  | file p => cases hvisit
  | tooDeep dir =>
    -- the two messages differ in their first letter
    have hletter := congrArg (·.message.toList.head?) (Option.some.inj hvisit)
    simp [capWarning, toString] at hletter

/-- A walk that cannot start fails, and every other one has a course, on which the stack can overflow
only when it has no more room than the depth limit has levels, nor than there are locations. -/
theorem exists_course (fs : FileSystem) (policy : WalkPolicy) (room : Nat) (start : Path) :
    (∃ e, fs.isDirectory? start = .error e) ∨ ∃ course,
      Walk.course fs policy room start = pure course ∧
      (levelsOf policy.maxDepth < room ∨ fs.locations.length < room → course.overflows = false) := by
  cases hd : fs.isDirectory? start with
  | error e => exact .inl ⟨e,rfl⟩
  | ok isDirectory =>
    refine .inr ?_
    cases isDirectory with
    | false =>
      refine ⟨⟨[],false⟩,?_,fun _ => rfl⟩
      rw [Walk.course, walk, hd]
      exact ite_self _
    | true =>
      obtain ⟨origin,entry,hs,he⟩ := test_eq_true_iff.mp hd
      rw [isDirectory_iff.mp he] at hs
      obtain ⟨course,visits,steps,hgoes,-⟩ := goes_of_status hs policy room
      refine ⟨course,hgoes.run,?_⟩
      rintro (hlevels | hlocations)
      · by_contra ho
        exact Nat.not_le.mpr hlevels (hgoes.overflows.mp (Bool.not_eq_false _ ▸ ho)).1
      · exact hgoes.not_overflows hlocations

/-- A capped collection fails where the walk cannot start. Else it finds the first source files up to
the cap and warns of the cap exactly when a file comes after them; then it warns last, having reported
what the walk reports up to there. When none does, it ends as the walk does and reports all of that: a
stack that overflows is met, and nothing is found. -/
theorem sources_capped (fs : FileSystem) (policy : WalkPolicy) (room : Nat) (cap : Int)
    (start : Path) :
    (∃ e, fs.isDirectory? start = .error e ∧
      (filesOn fs policy room (fun _ => true) start).outcome = (.error (.file e),[]) ∧
      (sourcesOn fs policy room cap start).outcome = (.error (.file e),[])) ∨
    ∃ course walked found log, Walk.course fs policy room start = pure course ∧
      (levelsOf policy.maxDepth < room ∨ fs.locations.length < room → course.overflows = false) ∧
      (filesOn fs policy room (fun _ => true) start).outcome =
        (if course.overflows then .error .stackOverflow else .ok course.files,walked) ∧
      (sourcesOn fs policy room cap start).outcome = (found,log) ∧
      (course.overflows = false ∨ Exceeds cap.toNat course.files →
        found = .ok ((course.files.filter Source.isSource).take cap.toNat)) ∧
      (course.overflows = true ∧ ¬ Exceeds cap.toNat course.files → found = .error .stackOverflow) ∧
      (capWarning cap ∈ log ↔ Exceeds cap.toNat course.files) ∧
      (log = walked ∨ ∃ before, before <+: walked ∧ log = before ++ [capWarning cap]) := by
  obtain ⟨e,hd⟩ | ⟨course,hrun,hroom⟩ := exists_course fs policy room start
  · exact .inl ⟨e,hd,filesOn_outcome_error hd,sourcesOn_outcome_error hd⟩
  have hcapped := beforeCap_capped_iff cap 0 course.visits
  have hfound := beforeCap_sources cap 0 course.visits
  have hfirst := (beforeCap_initial cap 0 course.visits).filterMap depthWarning?
  have hquiet := capWarning_not_mem cap (beforeCap cap 0 course.visits).1
  rw [Int.natCast_zero, Int.sub_zero, ← Course.files] at hcapped hfound
  refine .inr ⟨course,_,_,_,hrun,hroom,by rw [filesOn_outcome hrun, List.filter_true],
    sourcesOn_outcome hrun,?_,?_,?_,?_⟩
  · rintro (ho | hexceeds)
    · rw [if_neg (by simp [ho]), hfound]
    · rw [if_neg (by simp [hcapped.mpr hexceeds]), hfound]
  · rintro ⟨ho,hexceeds⟩
    rw [if_pos ⟨Bool.eq_false_iff.mpr (mt hcapped.mp hexceeds),ho⟩]
  · simp [hquiet, ← hcapped]
  · cases hc : (beforeCap cap 0 course.visits).2 with
    | true => exact .inr ⟨_,hfirst,rfl⟩
    | false =>
      rw [beforeCap_of_not_capped hc]
      exact .inl (List.append_nil _)

def nestedLocation (depth : Nat) : Location := "p" :: List.replicate depth "d"

/-- Directories nested `depth` deep in a project, with a source file in the last. -/
def nested (depth : Nat) : FileSystem where
  entries := (["p"],.directory) ::
    ((List.range depth).map fun n => (nestedLocation (n + 1),.directory)) ++
      [(nestedLocation depth ++ ["f.ts"],.file [])]
  workingDirectory := []

section Nested
variable {depth n : Nat}

theorem nestedLocation_succ (n : Nat) : nestedLocation (n + 1) = nestedLocation n ++ ["d"] := by
  simp [nestedLocation, List.replicate_succ']

theorem mem_nested {loc : Location} {entry : Entry} :
    (loc,entry) ∈ (nested depth).entries ↔
      (∃ n ≤ depth, loc = nestedLocation n ∧ entry = .directory) ∨
      (loc = nestedLocation depth ++ ["f.ts"] ∧ entry = .file []) := by
  have hrange : (["p"],.directory) :: ((List.range depth).map fun n => (nestedLocation (n + 1),.directory)) =
      (List.range (depth + 1)).map fun n => (nestedLocation n,Entry.directory) := by
    rw [List.range_succ_eq_map, List.map_cons, List.map_map]
    rfl
  unfold nested
  rw [hrange, List.mem_append, List.mem_map, List.mem_singleton, Prod.mk.injEq]
  simp only [List.mem_range, Nat.lt_succ_iff, Prod.mk.injEq, eq_comm]

theorem nested_isReal (hn : n ≤ depth) : (nested depth).IsReal (nestedLocation n) := by
  have hentry : ∀ {n}, n ≤ depth → FileSystem.entry? (nested depth) (nestedLocation n) = some .directory := by
    intro n hn
    refine entry?_eq_some_of_mem (mem_nested.mpr (.inl ⟨n,hn,rfl,rfl⟩)) ?_ (List.cons_ne_nil _ _)
    rintro ⟨loc,entry⟩ he rfl
    rcases mem_nested.mp he with ⟨-,-,-,rfl⟩ | ⟨heq,-⟩
    · rfl
    -- the file lies in the last directory, by a name of its own
    · cases n with
      | zero => simp [nestedLocation] at heq
      | succ n =>
        rw [nestedLocation_succ] at heq
        simpa using (List.append_inj' heq rfl).2
  induction n with
  | zero => exact isReal_nil.snoc (by decide) (hentry hn)
  | succ n ih =>
    rw [nestedLocation_succ]
    exact (ih (Nat.le_of_succ_le hn)).snoc (by decide) (nestedLocation_succ n ▸ hentry hn)

theorem nested_status (hn : n ≤ depth) (hfit : n ≤ 2046) :
    (nested depth).status (Path.mk .root (nestedLocation n)) = .ok (nestedLocation n,.directory) := by
  have hreal := nested_isReal hn
  have hp : "p".utf8ByteSize = 1 := rfl
  have hd : "d".utf8ByteSize = 1 := rfl
  refine status_eq_ok_iff.mpr ⟨?_,[],Nat.zero_le _,@leads_of_isReal _ [] _ hreal⟩
  rw [nestedLocation, Path.utf8ByteSize_text]
  simp [hp, hd, pathLimit]
  omega

theorem filterMap_range_eq {α : Type} (a : α) (n depth : Nat) :
    ((List.range depth).filterMap fun k => if k = n then some a else none) =
      if n < depth then [a] else [] := by
  induction depth with
  | zero => rfl
  | succ depth ih =>
    rw [List.range_succ, List.filterMap_append, ih]
    by_cases hn : depth = n
    · simp [hn]
    · have hlt : n < depth + 1 ↔ n < depth := by omega
      simp [hn, hlt]

theorem nested_listing (hn : n < depth) :
    (nested depth).listing (nestedLocation n) = [("d",.directory)] := by
  have hinner : ∀ k, (if (nestedLocation (k + 1)).dropLast = nestedLocation n then
      (nestedLocation (k + 1)).getLast?.map (·,Entry.directory) else none) =
        if k = n then some ("d",.directory) else none := by
    intro k
    have hlast : nestedLocation k = nestedLocation n ↔ k = n := by
      simp [nestedLocation, List.replicate_inj]
    rw [nestedLocation_succ, List.dropLast_concat, List.getLast?_concat, Option.map_some]
    simp only [hlast]
  have hfile : nestedLocation depth ≠ nestedLocation n := by
    intro heq
    have hlength := congrArg List.length heq
    simp [nestedLocation] at hlength
    omega
  have htop : ¬ ([] : Location) = nestedLocation n := nofun
  unfold listing nested
  rw [List.cons_append, List.filterMap_cons, List.filterMap_append, List.filterMap_map]
  simp only [Function.comp_def, hinner, filterMap_range_eq]
  simp [hn, hfile, htop]

theorem nested_tour {ignored : List String} (hignored : "d" ∉ ignored) {levels : Nat}
    (hlevels : n + levels ≤ depth) (hfit : n + levels ≤ 2047) {entered : List Location}
    (hnew : ∀ loc ∈ entered, loc.length ≤ n) : ∃ steps,
      Tour (nested depth) ignored levels entered [Path.mk .root (nestedLocation n)]
        [.tooDeep (Path.mk .root (nestedLocation (n + levels)))] steps := by
  induction levels generalizing n entered with
  | zero => exact ⟨[],.tooDeep .done⟩
  | succ levels ih =>
    have hlength : (nestedLocation n).length = n + 1 := by simp [nestedLocation]
    have hcontents : (nested depth).contents (Path.mk .root (nestedLocation n)) (nestedLocation n) =
        [("d",.directory)] := by
      have hlisting := @nested_listing depth n (by omega)
      refine contents_of_pairwise (by simp [hlisting]) ?_
      rw [hlisting]
      rfl
    have hfiles : (nested depth).ownFiles (Path.mk .root (nestedLocation n)) (nestedLocation n) = [] := by
      rw [ownFiles, hcontents]
      rfl
    have hdirectories : (nested depth).ownDirectories ignored (Path.mk .root (nestedLocation n))
        (nestedLocation n) = [Path.mk .root (nestedLocation (n + 1))] := by
      rw [ownDirectories, hcontents, nestedLocation_succ]
      simp [Entry.isDirectory, hignored, Path.child]
    obtain ⟨steps,hbelow⟩ := @ih (n + 1) (by omega) (by omega) (nestedLocation n :: entered) (by
      intro loc hloc
      rcases List.mem_cons.mp hloc with rfl | hloc
      · exact hlength.le
      · exact (hnew loc hloc).trans (Nat.le_succ n))
    have hfresh : nestedLocation n ∉ entered := fun hm => by
      have hle := hnew _ hm
      omega
    have htour := Tour.enter (nested_status (by omega) (by omega)) hfresh
      (hdirectories ▸ hbelow) (@Tour.done _ _ (levels + 1) _)
    rw [hfiles] at htour
    have hend : n + 1 + levels = n + (levels + 1) := by omega
    exact ⟨_,hend ▸ htour⟩

/-- In directories that are nested deeper than the stack has room for it overflows before any file. -/
theorem nested_course {policy : WalkPolicy} {room : Nat} (hignored : "d" ∉ policy.ignored)
    (hlevels : room ≤ levelsOf policy.maxDepth) (hdepth : room ≤ depth) (hfit : room ≤ 2047) :
    Walk.course (nested depth) policy room projectDirectory = pure ⟨[],true⟩ := by
  obtain ⟨steps,htour⟩ := @nested_tour depth 0 policy.ignored hignored room (by omega) (by omega) []
    nofun
  obtain ⟨course,visits,steps',hgoes,-⟩ :=
    goes_of_status (@nested_status depth 0 (Nat.zero_le _) (Nat.zero_le _)) policy room
  have htour' := hgoes.tour
  rw [Nat.min_eq_right hlevels] at htour'
  obtain ⟨rfl,-⟩ := htour'.unique htour
  have ho : course.overflows = true := hgoes.overflows.mpr ⟨hlevels,_,List.mem_singleton_self _⟩
  obtain ⟨hnone,dir,rest,heq⟩ := hgoes.broken ho
  have hvisits : course.visits = [] := by
    rcases List.append_eq_singleton_iff.mp heq.symm with ⟨h,-⟩ | ⟨-,h⟩
    · exact h
    · cases h
  have hcourse : course = ⟨[],true⟩ := by
    obtain ⟨visits,overflows⟩ := course
    simp_all
  rw [← hcourse]
  exact hgoes.run

end Nested

/-- In 1100 nested directories a collection that may go 2000 deep finds no source file, when the stack
has room for a thousand. -/
theorem sources_nested_lost :
    (nested 1100).status projectDirectory = .ok (["p"],.directory) ∧
    ("f.ts",.file []) ∈ (nested 1100).listing (nestedLocation 1100) ∧
    (filesOn (nested 1100) ⟨[],2000⟩ 1000 (fun _ => true) projectDirectory).outcome =
      (.error .stackOverflow,[]) ∧
    (sourcesOn (nested 1100) ⟨[],2000⟩ 1000 500 projectDirectory).outcome =
      (.error .stackOverflow,[]) := by
  have hcourse : Walk.course (nested 1100) ⟨[],2000⟩ 1000 projectDirectory = pure ⟨[],true⟩ :=
    nested_course List.not_mem_nil (by decide) (by decide) (by decide)
  refine ⟨nested_status (Nat.zero_le _) (Nat.zero_le _),mem_listing_iff.mpr (mem_nested.mpr (.inr ⟨rfl,rfl⟩)),
    filesOn_outcome hcourse,sourcesOn_outcome hcourse⟩

end WebAtlas.Walk
