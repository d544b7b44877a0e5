import WebAtlas.Proofs.Walk.Coverage

/-! # What a walk covers within its depth

A directory is entered once, by the first path that leads to it, and the levels left are counted from
there. So a chain of entries no longer than the depth limit is followed to its end, unless a directory
on it was entered by a longer way that ends at the limit.
-/
namespace WebAtlas.FileSystem
variable {fs : FileSystem} {ignored : List String} {levels : Nat} {entered : List Location}
  {dirs : List Path} {visits : List Visit} {steps : List Step} {origin loc : Location} {start : Path}

/-- The real directories got to by a chain of entries with these names, none of them ignored. -/
inductive ReachesBy (fs : FileSystem) (ignored : List String) (origin : Location) :
    List String → Location → Prop
  | start : ReachesBy fs ignored origin [] origin
  | step {names : List String} {loc next : Location} {name : String} {listed : Entry}
      {links : List Location} (h : ReachesBy fs ignored origin names loc)
      (hm : (name,listed) ∈ fs.listing loc) (hn : name ∉ ignored)
      (hl : fs.Leads loc [name] next .directory links) :
      ReachesBy fs ignored origin (names ++ [name]) next

/-- A path that leads somewhere but is too long or follows too many links to be looked up. -/
def Refused (fs : FileSystem) (p : Path) : Prop :=
  ∃ target entry links, fs.Leads (fs.origin p) p.segments target entry links ∧
    (pathLimit < p.text.utf8ByteSize ∨ linkLimit < links.length)

theorem status_of_not_refused {p : Path} {target : Location} {entry : Entry} {links : List Location}
    (h : fs.Leads (fs.origin p) p.segments target entry links) (hp : ¬ fs.Refused p) :
    fs.status p = .ok (target,entry) := by
  have hlimits : ¬ (pathLimit < p.text.utf8ByteSize ∨ linkLimit < links.length) := fun hlimit =>
    hp ⟨target,entry,links,h,hlimit⟩
  rw [not_or, Nat.not_lt, Nat.not_lt] at hlimits
  exact status_eq_ok_iff.mpr ⟨hlimits.1,links,hlimits.2,h⟩

theorem not_refused_of_status {p : Path} {found : Location × Entry} (h : fs.status p = .ok found) :
    ¬ fs.Refused p := by
  rintro ⟨target,entry,links,hl,hlimits⟩
  obtain ⟨htext,links',hlinks,hl'⟩ := status_eq_ok_iff.mp h
  obtain ⟨-,-,rfl⟩ := hl.deterministic hl'
  rcases hlimits with hlimit | hlimit
  · exact Nat.not_lt.mpr htext hlimit
  · exact Nat.not_lt.mpr hlinks hlimit

/-- A subdirectory whose look-up is not refused is among those to enter. -/
theorem WellFormed.mem_ownDirectories_of_leads (hfs : fs.WellFormed) {dir : Path} {name : String}
    {listed : Entry} {next : Location} {links : List Location}
    (hs : fs.status dir = .ok (loc,.directory)) (hm : (name,listed) ∈ fs.listing loc)
    (hn : name ∉ ignored) (hl : fs.Leads loc [name] next .directory links)
    (hr : ¬ fs.Refused (dir.child name)) :
    dir.child name ∈ fs.ownDirectories ignored dir loc ∧
      fs.status (dir.child name) = .ok (next,.directory) := by
  obtain ⟨-,before,-,hdir⟩ := status_eq_ok_iff.mp hs
  have hstatus := status_of_not_refused (hdir.append rfl hl) hr
  refine ⟨mem_ownDirectories.mpr ⟨name,mem_contents.mpr ⟨listed,hm,?_⟩,hn,rfl⟩,hstatus⟩
  cases listed with
  | directory => rfl
  | file bytes => cases hfs.isFile_of_leads hm hl
  | link text => rw [target?, hstatus]; rfl

namespace Tour

/-- With a level left, every directory gone through is entered by the end. -/
theorem entered_of_levels (h : Tour fs ignored levels entered dirs visits steps) (hl : 0 < levels) :
    ∀ dir ∈ dirs, ∀ loc, fs.status dir = .ok (loc,.directory) → loc ∈ enteredAfter entered steps := by
  induction h with
  | done => simp
  | tooDeep _ _ => exact absurd hl (Nat.lt_irrefl 0)
  | passOver hpass _ ih =>
    intro d hd l hs
    rcases List.mem_cons.mp hd with rfl | hd
    · exact mem_enteredAfter.mpr (.inr (hpass l hs))
    · exact ih hl d hd l hs
  | enter hs _ _ _ _ ih =>
    rw [List.cons_append, enteredAfter_cons, enteredAfter_append]
    intro d hd l hs'
    rcases List.mem_cons.mp hd with rfl | hd
    · rw [hs] at hs'
      cases hs'
      simp [mem_enteredAfter]
    · exact ih hl d hd l hs'

theorem tooDeep_of_mem (h : Tour fs ignored 0 entered dirs visits steps) :
    ∀ dir ∈ dirs, .tooDeep dir ∈ visits := by
  generalize hz : 0 = left at h
  induction h with
  | done => simp
  | tooDeep _ ih =>
    intro d hd
    rcases List.mem_cons.mp hd with rfl | hd
    · exact List.mem_cons_self
    · exact List.mem_cons_of_mem _ (ih hz d hd)
  | passOver _ _ _ | enter _ _ _ _ _ _ => cases hz

/-- Of a directory entered with a level to spare all subdirectories are entered; of one entered on the
last level all are too deep. -/
theorem frontier (h : Tour fs ignored levels entered dirs visits steps) :
    ∀ s ∈ steps, ∃ dir ∈ dirs, ∃ way, s.1 = dir.descend way ∧ way.length < levels ∧
      ∀ sub ∈ fs.ownDirectories ignored s.1 s.2,
        (way.length + 1 < levels → ∀ loc, fs.status sub = .ok (loc,.directory) →
          loc ∈ enteredAfter entered steps) ∧
        (way.length + 1 = levels → .tooDeep sub ∈ visits) := by
  induction h with
  | done => simp
  | tooDeep _ ih =>
    intro s hs
    obtain ⟨dir,_,way,_,hlt,_⟩ := ih s hs
    exact absurd hlt (Nat.not_lt_zero _)
  | passOver _ _ ih =>
    intro s hs
    obtain ⟨dir,hdir,hway⟩ := ih s hs
    exact ⟨dir,List.mem_cons_of_mem _ hdir,hway⟩
  | @enter levels entered dir loc _ below beside stepsBelow stepsBeside _ _ hbelow _ ihBelow ihBeside =>
    rw [List.cons_append, enteredAfter_cons, enteredAfter_append]
    have hlater : ∀ l ∈ enteredAfter (loc :: entered) stepsBelow,
        l ∈ enteredAfter (enteredAfter (loc :: entered) stepsBelow) stepsBeside :=
      fun l hl => mem_enteredAfter.mpr (.inr hl)
    intro s hmem
    rcases List.mem_cons.mp hmem with rfl | hmem
    · refine ⟨dir,List.mem_cons_self,[],by simp [Path.descend],Nat.succ_pos _,fun sub hsub => ⟨?_,?_⟩⟩
      · intro hlt l hl
        have hpos : 0 < levels := by simpa using hlt
        exact hlater l (hbelow.entered_of_levels hpos sub hsub l hl)
      · intro heq
        have hzero : levels = 0 := by simpa using heq.symm
        subst hzero
        have hdeep := hbelow.tooDeep_of_mem sub hsub
        simp [hdeep]
    rcases List.mem_append.mp hmem with hmem | hmem
    · obtain ⟨sub,hsub,way,heq,hlt,hway⟩ := ihBelow s hmem
      obtain ⟨name,-,-,rfl⟩ := mem_ownDirectories.mp hsub
      refine ⟨dir,List.mem_cons_self,name :: way,by simp [heq, Path.descend, Path.child],
        Nat.succ_lt_succ hlt,fun d hd => ⟨?_,?_⟩⟩
      · intro hlt' l hl
        exact hlater l ((hway d hd).1 (Nat.lt_of_succ_lt_succ hlt') l hl)
      · intro heq'
        have hdeep := (hway d hd).2 (Nat.succ_injective heq')
        simp [hdeep]
    · obtain ⟨d,hd,way,heq,hlt,hway⟩ := ihBeside s hmem
      refine ⟨d,List.mem_cons_of_mem _ hd,way,heq,hlt,fun sub hsub => ⟨(hway sub hsub).1,?_⟩⟩
      intro heq'
      exact List.mem_append_right _ ((hway sub hsub).2 heq')

end Tour

end WebAtlas.FileSystem

namespace WebAtlas.Walk
open FileSystem
variable {fs : FileSystem} {policy : WalkPolicy} {start : Path} {origin loc : Location} {log : Log}
  {steps : List Step} {names : List String}

/-- Where a walk that takes some steps leaves a chain of entries. One step enters a directory of the
chain by a way of its own, and either that way, longer than the chain so far, ends at the depth limit,
so that the walk reports the next entry as too deep, or the next entry is not looked up by that way. -/
inductive CutOff (fs : FileSystem) (policy : WalkPolicy) (start : Path) (origin : Location)
    (steps : List Step) (log : Log) : List String → Prop
  | tooDeep {before after way : List String} {name : String} {between : Location}
      (hchain : ReachesBy fs policy.ignored origin before between)
      (hstep : (start.descend way,between) ∈ steps)
      (hlonger : before.length < way.length) (hlimit : (way.length : Int) = policy.maxDepth)
      (hlog : ⟨.warning,component,
        s!"Maximum depth reached at {((start.descend way).child name).text}"⟩ ∈ log) :
      CutOff fs policy start origin steps log (before ++ name :: after)
  | refused {before after way : List String} {name : String} {between : Location}
      (hchain : ReachesBy fs policy.ignored origin before between)
      (hstep : (start.descend way,between) ∈ steps)
      (hrefused : fs.Refused ((start.descend way).child name)) :
      CutOff fs policy start origin steps log (before ++ name :: after)

theorem CutOff.snoc (h : CutOff fs policy start origin steps log names) (name : String) :
    CutOff fs policy start origin steps log (names ++ [name]) := by
  cases h with
  | tooDeep hchain hstep hlonger hlimit hlog =>
    rw [List.append_assoc, List.cons_append]
    exact .tooDeep hchain hstep hlonger hlimit hlog
  | refused hchain hstep hrefused =>
    rw [List.append_assoc, List.cons_append]
    exact .refused hchain hstep hrefused

theorem depthRecord_mem {visits : List Visit} {dir : Path} (h : .tooDeep dir ∈ visits) :
    (⟨.warning,component,s!"Maximum depth reached at {dir.text}"⟩ : LogRecord) ∈
      visits.filterMap depthWarning? :=
  List.mem_filterMap.mpr ⟨_,h,rfl⟩

/-- A chain within the depth limit is followed to its end or cut off. -/
theorem entered_or_cutOff (hfs : fs.WellFormed) {visits : List Visit} {levels : Nat}
    (hlevels : levels = levelsOf policy.maxDepth ∨ ∀ dir, .tooDeep dir ∉ visits)
    (h : Tour fs policy.ignored levels [] [start] visits steps)
    (hs : fs.status start = .ok (origin,.directory))
    (hr : ReachesBy fs policy.ignored origin names loc) (hd : (names.length : Int) ≤ policy.maxDepth) :
    loc ∈ steps.map (·.2) ∨
      CutOff fs policy start origin steps (visits.filterMap depthWarning?) names := by
  have hafter : ∀ l, l ∈ enteredAfter [] steps → l ∈ steps.map (·.2) := fun l hl =>
    (mem_enteredAfter.mp hl).resolve_right List.not_mem_nil
  induction hr with
  | start =>
    have hpos : 0 < levels := by
      by_contra hzero
      obtain rfl : levels = 0 := by omega
      have hlimit := hlevels.resolve_right fun hnone => hnone _ (h.tooDeep_of_mem start List.mem_cons_self)
      unfold levelsOf at hlimit
      simp only [List.length_nil] at hd
      omega
    exact .inl (hafter _ (h.entered_of_levels hpos start List.mem_cons_self origin hs))
  | @step names loc next name listed links hchain hm hn hl ih =>
    rw [List.length_append, List.length_singleton] at hd
    obtain hloc | hcut := ih (by omega)
    swap
    · exact .inr (hcut.snoc name)
    obtain ⟨s,hmem,rfl⟩ := List.mem_map.mp hloc
    have hlocated := h.located s hmem
    obtain ⟨dir,hdir,way,heq,hlt,hfrontier⟩ := h.frontier s hmem
    obtain rfl := List.mem_singleton.mp hdir
    have hstep : (dir.descend way,s.2) ∈ steps := heq ▸ hmem
    by_cases hrefused : fs.Refused (s.1.child name)
    · rw [heq] at hrefused
      exact .inr (.refused hchain hstep hrefused)
    obtain ⟨hsub,hstatus⟩ := hfs.mem_ownDirectories_of_leads hlocated hm hn hl hrefused
    obtain ⟨hinner,hlast⟩ := hfrontier _ hsub
    rcases Nat.lt_or_ge (way.length + 1) levels with hspare | hfull
    · exact .inl (hafter _ (hinner hspare _ hstatus))
    -- the way ends on the last level, which only the depth limit can have set
    have hdeep := hlast (by omega)
    obtain rfl := hlevels.resolve_right fun hnone => hnone _ hdeep
    have hlimit : ((levelsOf policy.maxDepth : Nat) : Int) = policy.maxDepth + 1 := by
      unfold levelsOf
      omega
    have hrecord := depthRecord_mem hdeep
    rw [heq] at hrecord
    exact .inr (.tooDeep hchain hstep (by omega) (by omega) hrecord)

/-- A walk that does not overflow the stack yields every file of a directory within the depth limit,
unless the chain that leads to the directory is cut off. -/
theorem files_within_depth (hfs : fs.WellFormed) (hs : fs.status start = .ok (origin,.directory))
    (room : Nat) :
    ∃ course visits steps log, Goes fs policy room start course visits steps ∧
      (filesOn fs policy room (fun _ => true) start).outcome =
        (if course.overflows then .error .stackOverflow else .ok course.files,log) ∧
      (course.overflows = true → room ≤ levelsOf policy.maxDepth ∧
        ∃ names, .tooDeep (start.descend names) ∈ visits ∧ names.length = room ∧
          ∀ n ∈ names, n ∉ policy.ignored) ∧
      (course.overflows = false → ∀ names loc, ReachesBy fs policy.ignored origin names loc →
        (names.length : Int) ≤ policy.maxDepth →
        (∃ dir, (dir,loc) ∈ steps ∧ fs.status dir = .ok (loc,.directory) ∧
          ∀ name bytes, (name,.file bytes) ∈ fs.listing loc → dir.child name ∈ course.files) ∨
        CutOff fs policy start origin steps log names) := by
  obtain ⟨course,visits,steps,hgoes,-⟩ := goes_of_status hs policy room
  refine ⟨course,visits,steps,course.visits.filterMap depthWarning?,hgoes,
    by rw [filesOn_outcome hgoes.run, List.filter_true],hgoes.exists_deep,?_⟩
  intro ho names loc hr hd
  have htour := hgoes.tour
  have hwhole := hgoes.whole ho
  have hlevels : min (levelsOf policy.maxDepth) room = levelsOf policy.maxDepth ∨
      ∀ dir, .tooDeep dir ∉ visits := by
    rcases Nat.lt_or_ge (levelsOf policy.maxDepth) room with hroom | hroom
    · exact .inl (Nat.min_eq_left (Nat.le_of_lt hroom))
    · exact .inr fun dir hdeep => Bool.false_ne_true (ho.symm.trans (hgoes.overflows.mpr ⟨hroom,dir,hdeep⟩))
  rw [Course.files, hwhole]
  obtain hloc | hcut := entered_or_cutOff hfs hlevels htour hs hr hd
  · obtain ⟨s,hmem,rfl⟩ := List.mem_map.mp hloc
    refine .inl ⟨s.1,hmem,htour.located s hmem,fun name bytes hm => ?_⟩
    have hown : s.1.child name ∈ fs.ownFiles s.1 s.2 :=
      mem_ownFiles.mpr ⟨name,bytes,mem_contents.mpr ⟨_,hm,rfl⟩,rfl⟩
    rw [htour.files]
    exact List.mem_flatMap.mpr ⟨s,hmem,hown⟩
  · exact .inr hcut

/-- A directory `m` lies two names below the start, and one by way of the link `z`. -/
def shortcut : FileSystem where
  entries := [(["p"],.directory), (["p","a"],.directory), (["p","a","m"],.directory),
    (["p","a","m","g.ts"],.file []), (["p","a","m","n"],.directory),
    (["p","a","m","n","f.ts"],.file []), (["p","z"],.link "a/m")]
  workingDirectory := []

def twoLevels : WalkPolicy := { defaultPolicy with maxDepth := 2 }

theorem shortcut_tour : Tour shortcut twoLevels.ignored 3 [] [projectDirectory]
    [.file (projectDirectory.descend ["a","m","g.ts"]),
      .tooDeep (projectDirectory.descend ["a","m","n"])]
    [(projectDirectory,["p"]), (projectDirectory.child "a",["p","a"]),
      (projectDirectory.descend ["a","m"],["p","a","m"])] := by
  have htop : shortcut.contents projectDirectory ["p"] = [("a",.directory), ("z",.directory)] :=
    contents_of_pairwise (by decide) rfl
  have ha : shortcut.contents (projectDirectory.child "a") ["p","a"] = [("m",.directory)] :=
    contents_of_pairwise (by decide) rfl
  have hm : shortcut.contents (projectDirectory.descend ["a","m"]) ["p","a","m"] =
      [("g.ts",.file []), ("n",.directory)] := contents_of_pairwise (by decide) rfl
  have hstatus : shortcut.status projectDirectory = .ok (["p"],.directory) := rfl
  have haStatus : shortcut.status (projectDirectory.child "a") = .ok (["p","a"],.directory) := rfl
  have hmStatus : shortcut.status (projectDirectory.descend ["a","m"]) =
      .ok (["p","a","m"],.directory) := rfl
  have hz : Tour shortcut twoLevels.ignored 2 [["p","a","m"],["p","a"],["p"]]
      [projectDirectory.child "z"] [] [] := by
    refine .passOver ?_ .done
    intro loc hloc
    cases hloc
    decide
  have hn : Tour shortcut twoLevels.ignored 0 [["p","a","m"],["p","a"],["p"]]
      [projectDirectory.descend ["a","m","n"]] [.tooDeep (projectDirectory.descend ["a","m","n"])] [] :=
    .tooDeep .done
  have hmTour := Tour.enter_contents hmStatus (by decide : ["p","a","m"] ∉ [["p","a"],["p"]]) hm hn
    .done
  have haTour := Tour.enter_contents haStatus (by decide : ["p","a"] ∉ [["p"]]) ha hmTour hz
  exact .enter_contents hstatus List.not_mem_nil htop haTour .done

theorem shortcut_wellFormed : shortcut.WellFormed := wellFormed_of_getLast? (by decide) (by decide)

theorem shortcut_reachesBy : ReachesBy shortcut twoLevels.ignored ["p"] ["z"] ["p","a","m"] ∧
    ReachesBy shortcut twoLevels.ignored ["p"] ["z","n"] ["p","a","m","n"] := by
  have hz : shortcut.Leads ["p"] ["z"] ["p","a","m"] .directory [["p","z"]] :=
    .link (by decide) rfl (.enter (by decide) rfl (.enter (by decide) rfl (.here _)))
  have hn : shortcut.Leads ["p","a","m"] ["n"] ["p","a","m","n"] .directory [] :=
    .enter (by decide) rfl (.here _)
  have hlistedZ : ("z",.link "a/m") ∈ shortcut.listing ["p"] := by decide
  have hlistedN : ("n",.directory) ∈ shortcut.listing ["p","a","m"] := by decide
  have hchain : ReachesBy shortcut twoLevels.ignored ["p"] ["z"] ["p","a","m"] :=
    ReachesBy.start.step hlistedZ (by decide) hz
  exact ⟨hchain,hchain.step hlistedN (by decide) hn⟩

def shortcutSteps : List Step := [(projectDirectory,["p"]), (projectDirectory.child "a",["p","a"]),
  (projectDirectory.descend ["a","m"],["p","a","m"])]

theorem shortcut_not_cutOff :
    ¬ CutOff shortcut twoLevels projectDirectory ["p"] shortcutSteps log ["z"] := by
  have hstart : ∀ way, (projectDirectory.descend way,["p"]) ∈ shortcutSteps → way = [] := by
    simp [shortcutSteps, projectDirectory, Path.descend]
  have hchains : ∀ {names between}, names = [] →
      ReachesBy shortcut twoLevels.ignored ["p"] names between → between = ["p"] := by
    intro names between hnil hchain
    cases hchain with
    | start => rfl
    | step => simp at hnil
  intro hcut
  generalize hz : ["z"] = names at hcut
  cases hcut with
  | tooDeep hchain hstep hlonger _ _ =>
    obtain ⟨rfl,-⟩ : _ = [] ∧ _ := by simpa [List.append_eq_singleton_iff] using hz.symm
    obtain rfl := hchains rfl hchain
    rw [hstart _ hstep] at hlonger
    exact absurd hlonger (Nat.lt_irrefl 0)
  | refused hchain hstep hrefused =>
    obtain ⟨rfl,rfl,rfl⟩ : _ = [] ∧ _ = "z" ∧ _ = [] := by
      simpa [List.append_eq_singleton_iff] using hz.symm
    obtain rfl := hchains rfl hchain
    rw [hstart _ hstep] at hrefused
    exact @not_refused_of_status shortcut (projectDirectory.child "z") _ rfl hrefused

/-- The directory that the chain by way of the link leads to is entered, though by a way that ends at
the limit, and so the chain to the next directory is cut off. -/
theorem files_within_depth_shortcut : shortcut.WellFormed ∧
    shortcut.status projectDirectory = .ok (["p"],.directory) ∧
    ∃ yielded log, (filesOn shortcut twoLevels 900 (fun _ => true) projectDirectory).outcome =
        (.ok yielded,log) ∧
      projectDirectory.descend ["a","m","g.ts"] ∈ yielded ∧
      CutOff shortcut twoLevels projectDirectory ["p"] shortcutSteps log ["z","n"] ∧
      ¬ CutOff shortcut twoLevels projectDirectory ["p"] shortcutSteps log ["z"] := by
  have hs : shortcut.status projectDirectory = .ok (["p"],.directory) := rfl
  obtain ⟨course,visits,steps,log,hgoes,hrun,hdeep,hchains⟩ :=
    @files_within_depth shortcut twoLevels projectDirectory ["p"] shortcut_wellFormed hs 900
  obtain ⟨rfl,rfl⟩ := hgoes.tour.unique shortcut_tour
  have ho : course.overflows = false := by
    by_contra ho
    have hroom := (hdeep (Bool.not_eq_false _ ▸ ho)).1
    exact absurd hroom (by decide)
  rw [ho] at hrun
  refine ⟨shortcut_wellFormed,hs,course.files,log,hrun,?_,?_,shortcut_not_cutOff⟩
  · obtain ⟨dir,hstep,-,hfiles⟩ | hcut := hchains ho ["z"] _ shortcut_reachesBy.1 (by decide)
    · have hdir : dir = projectDirectory.descend ["a","m"] := by simpa using hstep
      subst hdir
      exact hfiles "g.ts" [] (by decide)
    · exact absurd hcut shortcut_not_cutOff
  · obtain ⟨dir,hstep,-⟩ | hcut := hchains ho ["z","n"] _ shortcut_reachesBy.2 (by decide)
    · simp at hstep
    · exact hcut

/-- A file within the depth limit is lost when its directory is first met through a longer path. -/
theorem files_shortcut_lost : shortcut.WellFormed ∧
    shortcut.status projectDirectory = .ok (["p"],.directory) ∧
    ReachesBy shortcut twoLevels.ignored ["p"] ["z","n"] ["p","a","m","n"] ∧
    (["z","n"].length : Int) ≤ twoLevels.maxDepth ∧
    ("f.ts",.file []) ∈ shortcut.listing ["p","a","m","n"] ∧
    (files shortcut twoLevels (fun _ => true) projectDirectory).outcome =
      (.ok [projectDirectory.descend ["a","m","g.ts"]],
        [⟨.warning,component,"Maximum depth reached at /p/a/m/n"⟩]) := by
  have hs : shortcut.status projectDirectory = .ok (["p"],.directory) := rfl
  have hlevels : levelsOf twoLevels.maxDepth = 3 := rfl
  obtain ⟨visits,steps,htour,hvisit⟩ := @visit_tour shortcut twoLevels.ignored 3 [] projectDirectory
  obtain ⟨rfl,rfl⟩ := htour.unique shortcut_tour
  refine ⟨shortcut_wellFormed,hs,shortcut_reachesBy.2,by decide,by decide,?_⟩
  rw [files_outcome (by rw [walk_eq hs, hlevels, hvisit])]
  decide

end WebAtlas.Walk
