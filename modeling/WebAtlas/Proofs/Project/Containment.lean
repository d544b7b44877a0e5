import WebAtlas.Project.FileView
import WebAtlas.Proofs.FileSystem.RealPath
import WebAtlas.Proofs.Path.Append

/-! # What a project shows of itself

A view of a project file is refused for every request that leaves the project as written. A file
that is viewed has its real path below the project root, and lies below it itself whenever every link
followed to open it lies within the length limit of a path; beyond that limit a link is viewed
wherever it leads.
-/
namespace WebAtlas.FileView
open FileSystem
variable {fs : FileSystem} {project request : String} {root : Path}

/-- Every file that a request may mean is asked for by an absolute path. -/
theorem candidates_isAbsolute {requested p : Path} (hr : requested.isAbsolute = true)
    (hp : p ∈ candidates requested) : p.isAbsolute = true := by
  rcases List.mem_append.mp hp with hp | hp
  · rcases List.mem_cons.mp hp with rfl | hp
    · exact hr
    · obtain ⟨ending,-,rfl⟩ := List.mem_map.mp hp
      exact Path.append_isAbsolute hr ending
  · obtain ⟨name,-,rfl⟩ := List.mem_map.mp hp
    exact hr

theorem requestedPath_isAbsolute (hr : root.isAbsolute = true) :
    (requestedPath root request).isAbsolute = true := by
  rw [requestedPath, Path.normalize_isAbsolute]
  exact Path.join_isAbsolute hr _

theorem requestedPath_plain {site : Location} (h : Path.Plain site) :
    Path.Plain (requestedPath (Path.mk .root site) request).segments := by
  have ha : ((Path.mk .root site).join (Path.parse request)).isAbsolute = true :=
    Path.join_isAbsolute rfl _
  intro s hs
  have hup : s ≠ ".." := Path.normalize_ne_dotdot ha s hs
  have hjoin := Path.mem_of_mem_normalize ha hs
  have hwritten : s ∈ (Path.parse request).segments → Path.isVoid s = false ∧ '/' ∉ s.toList :=
    Path.parse_segments
  unfold Path.join at hjoin
  split at hjoin
  · exact ⟨(hwritten hjoin).1,hup,(hwritten hjoin).2⟩
  · rcases List.mem_append.mp hjoin with hm | hm
    · exact h s hm
    · exact ⟨(hwritten hm).1,hup,(hwritten hm).2⟩

theorem requestedPath_below {site : Location} (h : Path.Plain site)
    (hw : (Path.mk .root site).Within (requestedPath (Path.mk .root site) request)) :
    ∃ names, Path.Plain names ∧
      requestedPath (Path.mk .root site) request = Path.mk .root (site ++ names) := by
  have hplain := @requestedPath_plain request site h
  obtain ⟨hanchor,names,hnames⟩ := hw
  rcases hr : requestedPath (Path.mk .root site) request with ⟨anchor,segments⟩
  rw [hr] at hanchor hnames hplain
  cases hanchor
  cases hnames
  exact ⟨names,hplain.mono (List.subset_append_right ..),rfl⟩

/-- A request that leaves the project as written is refused before the file system is looked at. -/
theorem read_of_not_within (hroot : fs.resolve (Path.parse project) = .ok root)
    (h : ¬ root.Within (requestedPath root request)) :
    read fs project request = .error .outsideProject := by
  rw [Path.within_iff, not_or, Bool.not_eq_true] at h
  unfold read
  rw [hroot]
  simp [bind, Except.bind, h, throw, throwThe, MonadExceptOf.throw]

/-- What becomes of a request that stays in the project as written. -/
theorem read_of_within (hroot : fs.resolve (Path.parse project) = .ok root)
    (h : root.Within (requestedPath root request)) : read fs project request =
      match fs.firstFile? (candidates (requestedPath root request)) with
      | .error e => .error (.file e)
      | .ok none => .error (.sourceMissing request)
      | .ok (some file) => match fs.resolve file with
        | .error fault => .error fault
        | .ok real =>
          if root.isBelow real = false then .error .outsideProject
          else match fs.read file with
            | .ok bytes => .ok (ofFile file bytes)
            | .error fault => .error (.file ⟨fault,file⟩) := by
  have hw : ¬ (requestedPath root request ≠ root ∧
      root.isBelow (requestedPath root request) = false) := by
    rw [not_and_or, Bool.not_eq_false, ne_eq, not_not]
    exact Path.within_iff.mp h
  unfold read
  rw [hroot]
  simp only [Except.mapError, bind, Except.bind, if_neg hw]
  cases fs.firstFile? (candidates (requestedPath root request)) with
  | error e => rfl
  | ok found =>
    cases found with
    | none => rfl
    | some file =>
      dsimp only
      cases fs.resolve file with
      | error fault => rfl
      | ok real =>
        dsimp only
        split
        · rfl
        · cases fs.read file <;> rfl

/-- A file is not viewed when its real path cannot be found. -/
theorem read_of_unresolved {p : Path} {fault : Fault} {loc : Location} {bytes : List UInt8}
    (hroot : fs.resolve (Path.parse project) = .ok root) (hp : requestedPath root request = p)
    (hw : root.Within p) (hs : fs.status p = .ok (loc,.file bytes))
    (hl : fs.resolve p = .error fault) : read fs project request = .error fault := by
  rw [← hp] at hw
  rw [read_of_within hroot hw, hp, candidates, List.cons_append, firstFile?_cons hs]
  simp only [hl]

/-- A request that is viewed lies within the project, and its first file is what is viewed. -/
theorem read_first {view : FileView} (hroot : fs.resolve (Path.parse project) = .ok root)
    (h : read fs project request = .ok view) :
    root.Within (requestedPath root request) ∧ ∃ file bytes,
      fs.firstFile? (candidates (requestedPath root request)) = .ok (some file) ∧
      root.isBelow (fs.realPath file) = true ∧ fs.read file = .ok bytes ∧
      view = ofFile file bytes := by
  by_cases hw : root.Within (requestedPath root request)
  · rw [read_of_within hroot hw] at h
    refine ⟨hw,?_⟩
    cases hf : fs.firstFile? (candidates (requestedPath root request)) with
    | error e => simp [hf] at h
    | ok found =>
      cases found with
      | none => simp [hf] at h
      | some file =>
        simp only [hf] at h
        cases hs : fs.resolve file with
        | error fault => simp [hs] at h
        | ok real =>
          simp only [hs] at h
          split at h
          · cases h
          · rename_i hb
            rw [Bool.not_eq_false, resolve_eq_ok hs] at hb
            cases hread : fs.read file with
            | error fault => simp [hread] at h
            | ok bytes =>
              simp only [hread, Except.ok.injEq] at h
              exact ⟨file,bytes,rfl,hb,hread,h.symm⟩
  · rw [read_of_not_within hroot hw] at h
    cases h

/-- What a view says about the file that was opened for it. -/
theorem read_eq_ok {view : FileView} (hroot : fs.resolve (Path.parse project) = .ok root)
    (h : read fs project request = .ok view) :
    ∃ file bytes, file ∈ candidates (requestedPath root request) ∧
      root.isBelow (fs.realPath file) = true ∧ fs.read file = .ok bytes ∧
      view = ofFile file bytes := by
  obtain ⟨-,file,bytes,hf,hb,hread,hview⟩ := read_first hroot h
  exact ⟨file,bytes,(firstFile?_eq_some hf).1,hb,hread,hview⟩

/-- A view never leaves the project as written, nor by its real path; the file itself lies below the
root when every link followed to open it fits. -/
theorem read_within_project (hroot : fs.resolve (Path.parse project) = .ok root) :
    ((Path.parse project).isAbsolute = true → ∀ home entry links,
      fs.Leads [] (Path.parse project).segments home entry links → (∀ l ∈ links, Fits l) →
      root = Path.mk .root home) ∧
    (∀ view, read fs project request = .ok view → ∃ file loc bytes links,
      view.filePath = file.text ∧ view.content = Source.textOf bytes ∧
      fs.status file = .ok (loc,.file bytes) ∧ fs.entry? loc = some (.file bytes) ∧
      root.isBelow (fs.realPath file) = true ∧ fs.Leads [] file.segments loc (.file bytes) links ∧
      ((∀ l ∈ links, Fits l) → ∃ names, names ≠ [] ∧ loc = root.segments ++ names)) ∧
    (¬ root.Within (requestedPath root request) →
      read fs project request = .error .outsideProject) := by
  refine ⟨?_,?_,read_of_not_within hroot⟩
  · intro ha home entry links h hf
    rw [resolve_eq_ok hroot]
    exact realPath_of_leads ha h hf
  · intro view hview
    obtain ⟨file,bytes,hc,hb,hread,rfl⟩ := read_eq_ok hroot hview
    have ha : file.isAbsolute = true :=
      candidates_isAbsolute (requestedPath_isAbsolute (resolve_isAbsolute hroot)) hc
    obtain ⟨loc,hs⟩ := status_of_read hread
    obtain ⟨-,links,-,hl⟩ := status_eq_ok_iff.mp hs
    have ho : fs.origin file = [] := if_pos ha
    rw [ho] at hl
    refine ⟨file,loc,bytes,links,rfl,rfl,hs,(hl.real isReal_nil).2.1,hb,hl,?_⟩
    intro hf
    rw [realPath_of_leads ha hl hf] at hb
    exact (Path.isBelow_iff.mp hb).2

/-- A project `p` with a link to a directory of its own and one to a file outside. -/
def linkedProject : FileSystem where
  entries := [(["p"],.directory), (["p","lib"],.directory), (["p","lib","a.ts"],.file [97]),
    (["p","short"],.link "lib"), (["p","out.ts"],.link "../secret"), (["secret"],.file [115])]
  workingDirectory := []

theorem linkedProject_read :
    linkedProject.resolve (Path.parse "/p") = .ok (Path.mk .root ["p"]) ∧
    read linkedProject "/p" "short/a" = .ok (ofFile (Path.mk .root ["p","short","a.ts"]) [97]) ∧
    (∃ file loc bytes links, file.text = "/p/short/a.ts" ∧
      linkedProject.status file = .ok (loc,.file bytes) ∧
      linkedProject.Leads [] file.segments loc (.file bytes) links ∧
      ((∀ l ∈ links, Fits l) → ∃ names, names ≠ [] ∧ loc = ["p"] ++ names)) ∧
    read linkedProject "/p" "short/../../secret" = .error .outsideProject := by
  have hroot : linkedProject.resolve (Path.parse "/p") = .ok (Path.mk .root ["p"]) := rfl
  have hview : read linkedProject "/p" "short/a" =
      .ok (ofFile (Path.mk .root ["p","short","a.ts"]) [97]) := rfl
  have hrequest : requestedPath (Path.mk .root ["p"]) "short/../../secret" =
      Path.mk .root ["secret"] := rfl
  obtain ⟨file,loc,bytes,links,hfile,-,hs,-,-,hl,hin⟩ := (read_within_project hroot).2.1 _ hview
  refine ⟨hroot,hview,⟨file,loc,bytes,links,hfile.symm,hs,hl,hin⟩,
    (read_within_project hroot).2.2 ?_⟩
  rw [hrequest]
  rintro ⟨-,names,hn⟩
  simp at hn

/-- A link of the project whose location does not fit is viewed wherever it leads. -/
theorem read_of_long_link {dir : Path} {name : String} {site loc : Location} {links : List Location}
    {bytes : List UInt8} (hroot : fs.resolve (Path.parse project) = .ok root)
    (hrequest : requestedPath root request = dir.child name)
    (hw : root.Within (dir.child name)) (hsite : root.Within (Path.mk .root site))
    (hd : fs.Leads [] dir.segments site .directory links) (hf : ∀ l ∈ links, Fits l)
    (hn : Names name) (hlong : ¬ Fits (site ++ [name]))
    (hs : fs.status (dir.child name) = .ok (loc,.file bytes)) :
    read fs project request = .ok (ofFile (dir.child name) bytes) := by
  have ha : (dir.child name).isAbsolute = true :=
    hrequest ▸ requestedPath_isAbsolute (resolve_isAbsolute hroot)
  have hreal : fs.resolve (dir.child name) = .ok (Path.mk .root (site ++ [name])) :=
    resolve_of_long (any_holdsNull_of_status hs) (realPath_of_long ha hd hf hn hlong)
      (Nat.not_le.mp hlong)
  have hbelow : root.isBelow (Path.mk .root (site ++ [name])) = true := by
    obtain ⟨hanchor,names,hnames⟩ := hsite
    exact Path.isBelow_iff.mpr ⟨hanchor,names ++ [name],by simp,by rw [← List.append_assoc, hnames]⟩
  rw [← hrequest] at hw
  rw [read_of_within hroot hw, hrequest, candidates, List.cons_append, firstFile?_cons hs]
  simp only [hreal, hbelow, Bool.true_eq_false, if_false, read_of_status hs]

/-- A name of 250 letters. -/
def longName : String := String.ofList (List.replicate 250 'n')

/-- A project `p` of seventeen directories inside one another. The link `s` is a short way to the
eighth, and the link `evil` in the innermost leaves the project. -/
def deepProject : FileSystem where
  entries := [(["p"],.directory), (["secret"],.file [115]),
    (["p","s"],.link ("/".intercalate (List.replicate 8 longName))),
    ("p" :: List.replicate 17 longName ++ ["evil"],.link "/secret")] ++
    (List.range 17).map fun k => ("p" :: List.replicate (k + 1) longName,.directory)
  workingDirectory := []

def deepRequest : String := "/".intercalate ("s" :: List.replicate 9 longName ++ ["evil"])

theorem utf8ByteSize_longName : longName.utf8ByteSize = 250 := utf8ByteSize_letters _

theorem longName_ne {name : String} (h : name.utf8ByteSize ≠ 250) : longName ≠ name := letters_ne h

theorem names_longName : Names longName := names_letters (by decide) (by decide)

theorem slash_not_mem_longName : '/' ∉ longName.toList := slash_not_mem_letters _

theorem deepProject_directory {k : Nat} (hk : k < 17) :
    deepProject.entry? ("p" :: List.replicate (k + 1) longName) = some .directory := by
  apply entry?_eq_some_of_mem
  · exact List.mem_append_right _ (List.mem_map.mpr ⟨k,List.mem_range.mpr hk,rfl⟩)
  · intro e he heq
    rcases List.mem_append.mp he with he | he
    · have hs : longName ≠ "s" := longName_ne (by decide)
      simp only [List.mem_cons, List.not_mem_nil, or_false] at he
      rcases he with rfl | rfl | rfl | rfl
      · rfl
      · simp at heq
      · cases k with
        | zero => simp [List.replicate_succ, hs.symm] at heq
        | succ k => simp [List.replicate_succ] at heq
      · have hlen := congrArg List.length heq
        simp at hlen
        omega
    · obtain ⟨j,-,rfl⟩ := List.mem_map.mp he
      rfl
  · exact List.cons_ne_nil _ _

theorem deepProject_evil :
    deepProject.entry? ("p" :: List.replicate 17 longName ++ ["evil"]) = some (.link "/secret") := by
  apply entry?_eq_some_of_mem
  · exact List.mem_append_left _ (by simp)
  · intro e he heq
    have hlen := congrArg List.length heq
    rcases List.mem_append.mp he with he | he
    · simp only [List.mem_cons, List.not_mem_nil, or_false] at he
      rcases he with rfl | rfl | rfl | rfl
      · simp at hlen
      · simp at hlen
      · simp at hlen
      · rfl
    · obtain ⟨k,hk,rfl⟩ := List.mem_map.mp he
      have hk' := List.mem_range.mp hk
      simp at hlen
      omega
  · exact List.cons_ne_nil _ _

theorem deepProject_isReal : deepProject.IsReal ("p" :: List.replicate 17 longName) := by
  have hp : deepProject.IsReal ["p"] := isReal_nil.snoc ⟨by decide,by decide,by decide⟩ rfl
  have h : ∀ k ≤ 17, deepProject.IsReal ("p" :: List.replicate k longName) := by
    intro k
    induction k with
    | zero => exact fun _ => hp
    | succ k ih =>
      intro hk
      have hsnoc : "p" :: List.replicate (k + 1) longName =
          ("p" :: List.replicate k longName) ++ [longName] := by
        rw [List.replicate_succ', List.cons_append]
      have hd := deepProject_directory hk
      rw [hsnoc] at hd ⊢
      exact (ih (Nat.le_of_succ_le hk)).snoc names_longName hd
  exact h 17 (Nat.le_refl _)

/-- The link `s` makes a path to the innermost directory that is short enough to be looked up. -/
theorem deepProject_leads : deepProject.Leads [] ("p" :: "s" :: List.replicate 9 longName)
    ("p" :: List.replicate 17 longName) .directory [["p","s"]] := by
  have hne : List.replicate 8 longName ≠ [] := by decide
  have hpieces : Path.pieces ("/".intercalate (List.replicate 8 longName)) =
      List.replicate 8 longName :=
    Path.pieces_intercalate (fun n hn => List.eq_of_mem_replicate hn ▸ slash_not_mem_longName) hne
  have horigin : linkOrigin ["p"] ("/".intercalate (List.replicate 8 longName)) = ["p"] := by
    unfold linkOrigin
    rw [Path.parse_intercalate
      (fun n hn => List.eq_of_mem_replicate hn ▸ slash_not_mem_longName)
      (fun n hn => List.eq_of_mem_replicate hn ▸ names_longName.1)]
    rfl
  have hlink : deepProject.Leads ["p"] ("s" :: List.replicate 9 longName)
      ("p" :: List.replicate 17 longName) .directory [["p","s"]] := by
    refine .link ⟨by decide,by decide,by decide⟩ rfl ?_
    rw [hpieces, List.replicate_append_replicate, horigin]
    exact leads_of_isReal deepProject_isReal
  exact .enter ⟨by decide,by decide,by decide⟩ rfl hlink

theorem deepProject_long : ¬ Fits ("p" :: List.replicate 17 longName ++ ["evil"]) := by
  have hp : "p".utf8ByteSize = 1 := rfl
  have hevil : "evil".utf8ByteSize = 4 := rfl
  rw [Fits, List.cons_append, Path.utf8ByteSize_text]
  simp [utf8ByteSize_longName, hp, hevil, pathLimit]

theorem deepProject_status : deepProject.status
    (Path.mk .root ("p" :: "s" :: List.replicate 9 longName ++ ["evil"])) =
      .ok (["secret"],.file [115]) := by
  have hp : "p".utf8ByteSize = 1 := rfl
  have hs : "s".utf8ByteSize = 1 := rfl
  have hevil : "evil".utf8ByteSize = 4 := rfl
  have hlink : deepProject.Leads ("p" :: List.replicate 17 longName) ["evil"] ["secret"] (.file [115])
      ["p" :: List.replicate 17 longName ++ ["evil"]] := by
    refine .link ⟨by decide,by decide,by decide⟩ deepProject_evil ?_
    exact .void (by decide) (.file ⟨by decide,by decide,by decide⟩ rfl)
  refine status_eq_ok_iff.mpr ⟨?_,_,?_,deepProject_leads.append rfl hlink⟩
  · rw [List.cons_append, List.cons_append, Path.utf8ByteSize_text]
    simp [utf8ByteSize_longName, hp, hs, hevil, pathLimit]
  · decide

theorem deepProject_resolve : deepProject.resolve (Path.parse "/p") = .ok (Path.mk .root ["p"]) := by
  have hp : deepProject.Leads [] ["p"] ["p"] .directory [] :=
    .enter ⟨by decide,by decide,by decide⟩ rfl (.here _)
  have hs : deepProject.status (Path.mk .root ["p"]) = .ok (["p"],.directory) :=
    status_eq_ok_iff.mpr ⟨by decide,[],by decide,hp⟩
  exact resolve_of_status rfl (realPath_of_leads rfl hp fun l hl => absurd hl List.not_mem_nil) hs

theorem deepRequest_path : requestedPath (Path.mk .root ["p"]) deepRequest =
    (Path.mk .root ("p" :: "s" :: List.replicate 9 longName)).child "evil" := by
  have hn : ∀ n ∈ "s" :: List.replicate 9 longName ++ ["evil"], '/' ∉ n.toList ∧ Names n := by
    intro n hn
    rcases List.mem_append.mp hn with hn | hn
    · rcases List.mem_cons.mp hn with rfl | hn
      · exact ⟨by decide,by decide,by decide,by decide⟩
      · exact List.eq_of_mem_replicate hn ▸ ⟨slash_not_mem_longName,names_longName⟩
    · exact List.mem_singleton.mp hn ▸ ⟨by decide,by decide,by decide,by decide⟩
  have hparse : Path.parse deepRequest =
      ⟨.relative,"s" :: List.replicate 9 longName ++ ["evil"]⟩ :=
    Path.parse_intercalate (fun n h => (hn n h).1) (fun n h => (hn n h).2.1)
  rw [requestedPath, hparse]
  apply Path.normalize_of_forall_ne
  intro n h
  rcases List.mem_cons.mp h with rfl | h
  · decide
  · exact (hn n h).2.2.1

/-- Beyond the length limit the guarantee fails: a project serves a file that lies outside it. -/
theorem long_link_leaves_project :
    deepProject.resolve (Path.parse "/p") = .ok (Path.mk .root ["p"]) ∧
    ∃ file view, read deepProject "/p" deepRequest = .ok view ∧ view.filePath = file.text ∧
      deepProject.status file = .ok (["secret"],.file [115]) ∧
      ¬ ∃ names, names ≠ [] ∧ ["secret"] = (Path.mk .root ["p"]).segments ++ names := by
  have hw : (Path.mk .root ["p"]).Within
      ((Path.mk .root ("p" :: "s" :: List.replicate 9 longName)).child "evil") :=
    ⟨rfl,_,rfl⟩
  have hsite : (Path.mk .root ["p"]).Within (Path.mk .root ("p" :: List.replicate 17 longName)) :=
    ⟨rfl,_,rfl⟩
  have hf : ∀ l ∈ [["p","s"]], Fits l := by
    intro l hl
    rw [List.mem_singleton.mp hl, Fits]
    decide
  have hread := read_of_long_link deepProject_resolve deepRequest_path hw hsite deepProject_leads hf
    ⟨by decide,by decide,by decide⟩ deepProject_long deepProject_status
  refine ⟨deepProject_resolve,_,_,hread,rfl,deepProject_status,?_⟩
  rintro ⟨names,-,h⟩
  simp at h

end WebAtlas.FileView
