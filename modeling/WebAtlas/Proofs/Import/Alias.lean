import WebAtlas.Proofs.Import.LastSegment
import WebAtlas.Proofs.Import.Probing
import WebAtlas.Proofs.Path.Steps

/-! # The alias prefix

An alias prefix stands for the project root. What follows it means the path that it means behind the
steps from the importing file up to the root, and no step up in it leaves the files that it leads to
below the root. That is so as long as nothing is left of the prefix but a relative path that names
something: a slash behind the prefix starts at the root of the file system, and behind a bare prefix
an extension is added to the name of the root itself.
-/
namespace WebAtlas
variable {project importer p : Path} {aliasPrefix rest text : String} {names dirs : List String}

namespace Import

/-- The relative specifier that climbs some directories. -/
def climb (n : Nat) : String := if n = 0 then "./" else String.join (List.replicate n "../")

theorem climb_succ (n : Nat) : climb (n + 1) = ".." ++ "/" ++ String.join (List.replicate n "../") := by
  rw [climb, if_neg (Nat.succ_ne_zero n), List.replicate_succ, String.join_cons]
  rfl

theorem head?_climb (n : Nat) (rest : String) : (climb n ++ rest).toList.head? = some '.' := by
  cases n with
  | zero => simp [climb]
  | succ n => simp [climb_succ]

theorem parse_climb (n : Nat) (rest : String) :
    Path.parse (climb n ++ rest) = ⟨.relative,List.replicate n ".." ++ (Path.parse rest).segments⟩ := by
  have hsteps : ∀ n, (Path.parse (String.join (List.replicate n "../") ++ rest)).segments =
      List.replicate n ".." ++ (Path.parse rest).segments := by
    intro n
    induction n with
    | zero => simp
    | succ n ih =>
      have hstep : String.join (List.replicate (n + 1) "../") ++ rest =
          ".." ++ "/" ++ (String.join (List.replicate n "../") ++ rest) := by
        rw [List.replicate_succ, String.join_cons, ← String.append_assoc]
        rfl
      rw [hstep, Path.parse_append_slash, ih]
      rfl
  have hanchor : (Path.parse (climb n ++ rest)).anchor = .relative :=
    Path.ofChars_of_head (by rw [head?_climb]; decide)
  have hsegments : (Path.parse (climb n ++ rest)).segments =
      List.replicate n ".." ++ (Path.parse rest).segments := by
    cases n with
    | zero => exact Path.parse_append_slash "." rest
    | succ n => rw [climb, if_neg (Nat.succ_ne_zero n), hsteps]
  rw [← hanchor, ← hsegments]

theorem base_alias (ha : aliasPrefix ≠ "") (hr : rest.toList.head? ≠ some '/') :
    base project importer aliasPrefix (aliasPrefix ++ rest) =
      (project.descend (Path.parse rest).segments).normalize := by
  have halias : afterAlias? aliasPrefix (aliasPrefix ++ rest) = some rest :=
    afterAlias?_eq_some_iff.mpr ⟨ha,rfl⟩
  have hanchor : (Path.parse rest).anchor = .relative := Path.ofChars_of_head hr
  rw [base, halias]
  dsimp only
  rw [Path.join_of_relative project hanchor]

/-- A specifier that climbs from a file below a directory to this directory is read from there. -/
theorem base_climb {file : String} (hdot : aliasPrefix.toList.head? ≠ some '.')
    (hdirs : ∀ d ∈ dirs, d ≠ "..") :
    base project (project.descend (dirs ++ [file])) aliasPrefix (climb dirs.length ++ rest) =
      (project.descend (Path.parse rest).segments).normalize := by
  have hparent : (project.descend (dirs ++ [file])).parent = project.descend dirs := by
    rw [Path.descend, ← List.append_assoc]
    exact congrArg (Path.mk project.anchor) List.dropLast_concat
  have halias : afterAlias? aliasPrefix (climb dirs.length ++ rest) = none := by
    rw [Option.eq_none_iff_forall_ne_some]
    intro more hmore
    obtain ⟨hne,heq⟩ := afterAlias?_eq_some_iff.mp hmore
    obtain ⟨c,tail,hc⟩ := List.exists_cons_of_ne_nil (l := aliasPrefix.toList) (by simpa using hne)
    have hhead := head?_climb dirs.length rest
    rw [heq, String.toList_append, hc] at hhead
    rw [hc] at hdot
    exact hdot hhead
  have hjoin : (project.descend dirs).join (Path.parse (climb dirs.length ++ rest)) =
      project.descend (dirs ++ List.replicate dirs.length ".." ++ (Path.parse rest).segments) := by
    rw [parse_climb, Path.join_of_relative _ rfl]
    simp [Path.descend]
  rw [base, halias]
  dsimp only
  rw [hparent, hjoin, Path.normalize_descend_back hdirs]

/-- The alias prefix and the way up to the project root lead to the same file. -/
theorem resolve_climb (fs : FileSystem) {file : String} (ha : aliasPrefix ≠ "")
    (hdot : aliasPrefix.toList.head? ≠ some '.') (hdirs : ∀ d ∈ dirs, d ≠ "..")
    (hr : rest.toList.head? ≠ some '/') :
    resolve fs project (project.descend (dirs ++ [file])) aliasPrefix (aliasPrefix ++ rest) =
      resolve fs project (project.descend (dirs ++ [file])) aliasPrefix
        (climb dirs.length ++ rest) := by
  rw [resolve, resolve, base_alias ha hr, base_climb hdot hdirs]

/-- A project with a file that an importer two directories below its root asks for. -/
def nested : FileSystem where
  entries := [(["p"],.directory), (["p","lib"],.directory), (["p","lib","util.ts"],.file []),
    (["p","src"],.directory), (["p","src","pages"],.directory), (["p","src","pages","main.ts"],.file [])]
  workingDirectory := []

theorem resolve_climb_nested : "~" ≠ "" ∧ "~".toList.head? ≠ some '.' ∧
    (∀ d ∈ ["src","pages"], d ≠ "..") ∧ "x/..//./lib/util".toList.head? ≠ some '/' ∧
    resolve nested ⟨.root,["p"]⟩ ⟨.root,["p","src","pages","main.ts"]⟩ "~" "~x/..//./lib/util" =
      resolve nested ⟨.root,["p"]⟩ ⟨.root,["p","src","pages","main.ts"]⟩ "~"
        "../../x/..//./lib/util" ∧
    resolve nested ⟨.root,["p"]⟩ ⟨.root,["p","src","pages","main.ts"]⟩ "~" "~x/..//./lib/util" =
      some ⟨.root,["p","lib","util.ts"]⟩ := by
  have ha : "~" ≠ "" := by decide
  have hdot : "~".toList.head? ≠ some '.' := by decide
  have hdirs : ∀ d ∈ ["src","pages"], d ≠ ".." := by decide
  have hr : "x/..//./lib/util".toList.head? ≠ some '/' := by decide
  refine ⟨ha,hdot,hdirs,hr,?_,by decide +kernel⟩
  exact @resolve_climb ⟨.root,["p"]⟩ "~" "x/..//./lib/util" ["src","pages"] nested "main.ts" ha hdot hdirs hr

theorem append_ending {anchor : Anchor} {dir : List String} {name ending : String}
    (hd : Path.Written dir) (hn : Path.Plain [name]) (he : ending ∈ endings) :
    ∃ more, more ≠ [] ∧
      (Path.mk anchor (dir ++ [name])).append ending = Path.mk anchor (dir ++ more) := by
  rcases mem_endings he with rfl | ⟨_,rfl,-,-,hextension⟩ | ⟨index,hindex,rfl⟩
  · refine ⟨[name],List.cons_ne_nil _ _,?_⟩
    rw [Path.append_snoc (by simpa using hd.append hn.written), String.append_empty]
  · have hplain := FileView.plain_extension hn hextension
    exact ⟨_,List.cons_ne_nil _ _,Path.append_snoc (hd.append hplain.written)⟩
  · have hplain := hn.append (FileView.plain_indexFile hindex)
    exact ⟨_,List.cons_ne_nil _ _,Path.append_slash (hd.append hplain.written)⟩

end Import

/-- A path goes on below the directory `root`; whether it starts with one slash or two is the same. -/
def Path.LiesBelow (root p : Path) : Prop :=
  p.isAbsolute = root.isAbsolute ∧ ∃ names, names ≠ [] ∧ p.segments = root.segments ++ names

namespace Import

theorem index_liesBelow {root : Path} (hr : Path.Written root.segments) {index : String}
    (h : index ∈ FileView.indexFiles) : root.LiesBelow (root.append ("/" ++ index)) := by
  obtain ⟨anchor,segments⟩ := root
  rcases List.eq_nil_or_concat segments with rfl | ⟨dir,name,rfl⟩
  · have hbare : ∀ anchor ∈ [Anchor.relative,.root,.doubleRoot], ∀ index ∈ FileView.indexFiles,
        ((Path.mk anchor []).append ("/" ++ index)).isAbsolute = (Path.mk anchor []).isAbsolute ∧
        ((Path.mk anchor []).append ("/" ++ index)).segments = [index] := by
      decide
    obtain ⟨hkind,hsegments⟩ := hbare anchor (by cases anchor <;> decide) index h
    exact ⟨hkind,[index],List.cons_ne_nil _ _,hsegments⟩
  · rw [List.concat_eq_append] at hr ⊢
    have hwritten := hr.append (FileView.plain_indexFile h).written
    rw [Path.append_slash (by simpa using hwritten)]
    exact ⟨rfl,[index],List.cons_ne_nil _ _,by simp⟩

theorem completed_liesBelow {root : Path} {ending : String} (hr : Path.Written root.segments)
    (hn : Path.Written names) (hne : names ≠ []) (hup : ".." ∉ names) (he : ending ∈ endings) :
    root.LiesBelow ((root.descend names).append ending) := by
  -- an ending changes the last name only, so that name has to be one below the root
  obtain ⟨init,last,rfl⟩ := (List.eq_nil_or_concat names).resolve_left hne
  rw [List.concat_eq_append] at hn hup ⊢
  have hlast : Path.Plain [last] := Path.plain_singleton (hn last (by simp)).1
    (fun heq => hup (by simp [heq])) (hn last (by simp)).2
  have hdir : Path.Written (root.segments ++ init) :=
    hr.append fun n hm => hn n (List.mem_append_left _ hm)
  have hdescend : root.descend (init ++ [last]) = Path.mk root.anchor (root.segments ++ init ++ [last]) := by
    rw [Path.descend, List.append_assoc]
  obtain ⟨more,hmore,happend⟩ := @append_ending root.anchor _ _ _ hdir hlast he
  rw [hdescend, happend]
  exact ⟨rfl,init ++ more,by simp [hmore],List.append_assoc ..⟩

/-- A directory itself is completed to an index file in it by every ending with a slash. -/
theorem slashed_liesBelow {root : Path} {ending : String} (hr : Path.Written root.segments)
    (he : ending ∈ endings) (hslash : '/' ∈ ending.toList) : root.LiesBelow (root.append ending) := by
  rcases mem_endings he with rfl | ⟨_,rfl,-,-,hextension⟩ | ⟨index,hindex,rfl⟩
  · cases hslash
  · have hnone : ∀ ending ∈ FileView.extensions, '/' ∉ ending.toList := by decide
    exact absurd hslash (hnone _ hextension)
  · exact index_liesBelow hr hindex

/-- What an alias prefix leads to without a step up is the path behind it, read from the project root
and completed. It lies below the root, unless that path names nothing and an extension completes it. -/
theorem resolve_alias_below {fs : FileSystem} (ha : aliasPrefix ≠ "") (hr : rest.toList.head? ≠ some '/')
    (hup : ".." ∉ (Path.parse rest).segments)
    (h : resolve fs (Path.parse text) importer aliasPrefix (aliasPrefix ++ rest) = some p) :
    ∃ ending ∈ endings,
      p = ((Path.parse text).normalize.descend (Path.parse rest).segments).append ending ∧
      ((Path.parse rest).segments ≠ [] ∨ '/' ∈ ending.toList →
        (Path.parse text).normalize.LiesBelow p) := by
  have hroot : Path.Written (Path.parse text).normalize.segments :=
    Path.Written.normalize fun _ => Path.parse_segments
  rw [resolve, base_alias ha hr, Path.normalize_descend hup] at h
  obtain ⟨ending,hending,rfl⟩ := List.mem_map.mp (List.mem_of_find?_eq_some h)
  refine ⟨ending,hending,rfl,fun hnamed => ?_⟩
  by_cases hne : (Path.parse rest).segments = []
  · rw [hne, Path.descend_nil]
    exact slashed_liesBelow hroot hending (hnamed.resolve_left (not_not_intro hne))
  · exact completed_liesBelow hroot (fun _ => Path.parse_segments) hne hup hending

/-- A project `p` with a file `lib/util.ts`, another one at the same path below the root of the file
system, and a file beside the project under its name and an extension. -/
def astray : FileSystem where
  entries := [(["p"],.directory), (["p","main.ts"],.file []), (["p","lib"],.directory),
    (["p","lib","util.ts"],.file []), (["lib"],.directory), (["lib","util.ts"],.file []),
    (["p.ts"],.file [])]
  workingDirectory := []

theorem resolve_alias_below_astray : "@/" ≠ "" ∧ "lib/./util".toList.head? ≠ some '/' ∧
    ".." ∉ (Path.parse "lib/./util").segments ∧
    resolve astray (Path.parse "/p") ⟨.root,["p","main.ts"]⟩ "@/" "@/lib/./util" =
      some ⟨.root,["p","lib","util.ts"]⟩ ∧
    (Path.parse "/p").normalize.LiesBelow ⟨.root,["p","lib","util.ts"]⟩ := by
  have ha : "@/" ≠ "" := by decide
  have hr : "lib/./util".toList.head? ≠ some '/' := by decide
  have hup : ".." ∉ (Path.parse "lib/./util").segments := by decide
  have hfound : resolve astray (Path.parse "/p") ⟨.root,["p","main.ts"]⟩ "@/" ("@/" ++ "lib/./util") =
      some ⟨.root,["p","lib","util.ts"]⟩ := by decide +kernel
  obtain ⟨_,-,-,hbelow⟩ := resolve_alias_below ha hr hup hfound
  exact ⟨ha,hr,hup,hfound,hbelow (.inl (by decide))⟩

/-- Behind a prefix without its slash a specifier is read from the root of the file system, and a bare
prefix finds a file beside the project. -/
theorem alias_leaves_project :
    resolve astray (Path.parse "/p") ⟨.root,["p","main.ts"]⟩ "@" "@/lib/util" =
      some ⟨.root,["lib","util.ts"]⟩ ∧
    resolve astray (Path.parse "/p") ⟨.root,["p","main.ts"]⟩ "@" "@" = some ⟨.root,["p.ts"]⟩ ∧
    (∀ rest ∈ ["/lib/util",""], ".." ∉ (Path.parse rest).segments) ∧
    ∀ p ∈ [Path.mk .root ["lib","util.ts"],Path.mk .root ["p.ts"]],
      ¬ (Path.parse "/p").normalize.LiesBelow p := by
  have hroot : (Path.parse "/p").normalize = Path.mk .root ["p"] := by decide
  refine ⟨by decide +kernel,by decide +kernel,by decide,?_⟩
  rw [hroot]
  rintro p hp ⟨-,names,-,hnames⟩
  simp only [List.mem_cons, List.not_mem_nil, or_false] at hp
  rcases hp with rfl | rfl
  · simp at hnames
  · simp at hnames

end Import
end WebAtlas
