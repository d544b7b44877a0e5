import WebAtlas.FileSystem.RealPath
import WebAtlas.Proofs.FileSystem.Leads
import WebAtlas.Proofs.Path.Lexical
import Mathlib.Data.List.Induction

/-! # Real directories

A real directory is reached from the root without a link. A path stands for one when it goes there by
names and steps up alone; whether a name below such a path is a link can be asked as long as the path
is short enough.
-/
namespace WebAtlas.FileSystem
variable {fs : FileSystem}

/-- Every location on the way to `loc`, itself included, is a directory with a proper name. -/
def IsReal (fs : FileSystem) (loc : Location) : Prop :=
  ∀ init name, init ++ [name] <+: loc → Names name ∧ fs.entry? (init ++ [name]) = some .directory

theorem isReal_nil : fs.IsReal [] := by
  intro init name h
  simp at h

theorem IsReal.of_prefix {dir loc : Location} (h : fs.IsReal loc) (hd : dir <+: loc) :
    fs.IsReal dir := fun init name hi => h init name (hi.trans hd)

theorem IsReal.dropLast {loc : Location} (h : fs.IsReal loc) : fs.IsReal loc.dropLast :=
  h.of_prefix (List.dropLast_prefix loc)

theorem IsReal.snoc {dir : Location} {piece : String} (h : fs.IsReal dir) (hp : Names piece)
    (he : fs.entry? (dir ++ [piece]) = some .directory) : fs.IsReal (dir ++ [piece]) := by
  intro init name hi
  rcases List.prefix_concat_iff.mp hi with heq | hi
  · obtain ⟨rfl,hn⟩ := List.append_inj' heq rfl
    cases hn
    exact ⟨hp,he⟩
  · exact h init name hi

theorem IsReal.linkOrigin {dir : Location} (h : fs.IsReal dir) (target : String) :
    fs.IsReal (linkOrigin dir target) := by
  unfold FileSystem.linkOrigin
  split
  · exact isReal_nil
  · exact h

theorem IsReal.names {loc : Location} (h : fs.IsReal loc) : ∀ name ∈ loc, Names name := by
  intro name hn
  obtain ⟨init,rest,rfl⟩ := List.append_of_mem hn
  exact (h init name ⟨rest,by simp⟩).1

theorem IsReal.entry {loc : Location} (h : fs.IsReal loc) : fs.entry? loc = some .directory := by
  rcases List.eq_nil_or_concat loc with rfl | ⟨init,name,rfl⟩
  · rfl
  · rw [List.concat_eq_append] at h ⊢
    exact (h init name (List.prefix_refl _)).2

/-- Pieces lead from a real directory to an entry of the file system whose location bears proper
names, and a directory they lead to is real. -/
theorem Leads.real {pieces : List String} {dir loc : Location} {entry : Entry}
    {links : List Location} (h : fs.Leads dir pieces loc entry links) (hd : fs.IsReal dir) :
    (∀ name ∈ loc, Names name) ∧ fs.entry? loc = some entry ∧
      (entry = .directory → fs.IsReal loc) := by
  induction h with
  | here dir => exact ⟨hd.names,hd.entry,fun _ => hd⟩
  | void _ _ ih => exact ih hd
  | up _ ih => exact ih hd.dropLast
  | enter hp he _ ih => exact ih (hd.snoc hp he)
  | @file dir piece bytes hp he =>
    refine ⟨?_,he,fun h => by cases h⟩
    intro name hn
    rcases List.mem_append.mp hn with hn | hn
    · exact hd.names name hn
    · exact List.mem_singleton.mp hn ▸ hp
  | link _ _ _ ih => exact ih (hd.linkOrigin _)

theorem leads_of_isReal {dir : Location} {names : List String} (h : fs.IsReal (dir ++ names)) :
    fs.Leads dir names (dir ++ names) .directory [] := by
  induction names generalizing dir with
  | nil => simpa using Leads.here dir
  | cons name names ih =>
    obtain ⟨hn,he⟩ := h dir name ⟨names,by simp⟩
    have hrest := @ih (dir ++ [name]) (by simpa using h)
    exact .enter hn he (by simpa using hrest)

/-- A walk goes on from where its first part leads without a link. -/
theorem Leads.advance_append {xs ys : List String} {dir loc : Location} {entry : Entry}
    {links : List Location} {followLast : Bool} (h : fs.Leads dir xs loc entry links)
    (hd : entry = .directory) (hl : links = []) :
    fs.advance followLast dir (xs ++ ys) = fs.advance followLast loc ys := by
  induction h with
  | here => rfl
  | void hp _ ih => rw [List.cons_append, advance_void hp, ih hd hl]
  | up _ ih => rw [List.cons_append, advance_up, ih hd hl]
  | enter hp he _ ih =>
    rw [List.cons_append, advance_cons hp, he]
    exact ih hd hl
  | file => cases hd
  | link => cases hl

/-- A walk along the names of real directories enters them all. -/
theorem advance_append_of_isReal {followLast : Bool} {dir : Location} {names rest : List String}
    (h : fs.IsReal (dir ++ names)) :
    fs.advance followLast dir (names ++ rest) = fs.advance followLast (dir ++ names) rest :=
  (leads_of_isReal h).advance_append rfl rfl

/-- What pieces lead to can be asked for by its own location. -/
theorem Leads.location {pieces : List String} {dir loc : Location} {entry : Entry}
    {links : List Location} (h : fs.Leads dir pieces loc entry links) (hd : fs.IsReal dir) :
    fs.Leads [] loc loc entry [] := by
  induction h with
  | here dir => exact @leads_of_isReal fs [] dir hd
  | void _ _ ih => exact ih hd
  | up _ ih => exact ih hd.dropLast
  | enter hp he _ ih => exact ih (hd.snoc hp he)
  | @file dir piece bytes hp he =>
    have hdir : fs.Leads [] dir dir .directory [] := @leads_of_isReal fs [] dir hd
    exact hdir.append rfl (.file hp he)
  | link _ _ _ ih => exact ih (hd.linkOrigin _)

theorem isReal_replicate {dir : Location} {name : String} {n : Nat} (hd : fs.IsReal dir)
    (hn : Names name)
    (he : ∀ k < n, fs.entry? (dir ++ List.replicate (k + 1) name) = some .directory) :
    fs.IsReal (dir ++ List.replicate n name) := by
  induction n with
  | zero => simpa using hd
  | succ n ih =>
    have hlast := he n (Nat.lt_succ_self n)
    rw [List.replicate_succ', ← List.append_assoc] at hlast ⊢
    exact (ih fun k hk => he k (Nat.lt_succ_of_lt hk)).snoc hn hlast

/-- The path written from the root to a location is short enough to be looked up. -/
def Fits (loc : Location) : Prop := (Path.mk .root loc).text.utf8ByteSize ≤ pathLimit

instance : DecidablePred Fits := fun _ => inferInstanceAs (Decidable (_ ≤ _))

theorem locate_of_fits {followLast : Bool} {p : Path} (hf : p.text.utf8ByteSize ≤ pathLimit) :
    fs.locate followLast p = fs.follow followLast linkLimit (fs.origin p) p.segments :=
  if_neg (Nat.not_lt.mpr hf)

theorem locate_root {followLast : Bool} {names : Location} (hf : Fits names) :
    fs.locate followLast (Path.mk .root names) = fs.follow followLast linkLimit [] names :=
  locate_of_fits hf

theorem IsReal.status {loc : Location} (h : fs.IsReal loc) (hf : Fits loc) :
    fs.status (Path.mk .root loc) = .ok (loc,.directory) :=
  status_eq_ok_iff.mpr ⟨hf,[],Nat.zero_le _,@leads_of_isReal fs [] loc h⟩

/-- A path through a name that a real directory lacks leads nowhere. -/
theorem status_of_absent {dir rest : Location} {name : String} (hd : fs.IsReal dir) (hn : Names name)
    (he : fs.entry? (dir ++ [name]) = none) (hf : Fits (dir ++ name :: rest)) :
    fs.status (Path.mk .root (dir ++ name :: rest)) = .error .missing := by
  have ha : fs.advance true [] (dir ++ name :: rest) =
      if rest = [] then .ok (.absent dir name) else .error .missing := by
    rw [advance_append_of_isReal (by simpa using hd), List.nil_append, advance_cons hn, he]
  unfold status
  rw [locate_root hf, follow, ha]
  cases rest <;> rfl

variable {q : Path} {dir loc : Location} {piece name target : String} {rest names : List String}

/-- A path that stands for a real directory, names and steps up leading there without a link. -/
inductive Stands (fs : FileSystem) : Path → Location → Prop
  | root : Stands fs ⟨.root,[]⟩ []
  | here (h : fs.IsReal fs.workingDirectory) : Stands fs ⟨.relative,[]⟩ fs.workingDirectory
  | above {dir : Location} {steps : Nat} (h : Stands fs ⟨.relative,List.replicate steps ".."⟩ dir) :
      Stands fs ⟨.relative,List.replicate (steps + 1) ".."⟩ dir.dropLast
  | child {q : Path} {dir : Location} {name : String} (h : Stands fs q dir) (hn : Names name)
      (he : fs.entry? (dir ++ [name]) = some .directory) : Stands fs (q.child name) (dir ++ [name])

namespace Stands

theorem real (h : fs.Stands q dir) : fs.IsReal dir := by
  induction h with
  | root => exact isReal_nil
  | here h => exact h
  | above _ ih => exact ih.dropLast
  | child _ hn he ih => exact ih.snoc hn he

theorem leads (h : fs.Stands q dir) : fs.Leads (fs.origin q) q.segments dir .directory [] := by
  induction h with
  | root => exact .here []
  | here => exact .here _
  | above _ ih =>
    rw [List.replicate_succ']
    exact ih.append rfl (.up (.here _))
  | child _ hn he ih => exact ih.append rfl (.enter hn he (.here _))

theorem deterministic (h : fs.Stands q dir) {dir' : Location} (h' : fs.Stands q dir') : dir = dir' :=
  (h.leads.deterministic h'.leads).1

/-- A step up from where a path stands. -/
theorem up (h : fs.Stands q dir) : fs.Stands (stepUp q) dir.dropLast := by
  cases h with
  | root => exact .root
  | here h => exact @above fs fs.workingDirectory 0 (.here h)
  | @above _ steps h =>
    have hstep : stepUp ⟨.relative,List.replicate (steps + 1) ".."⟩ =
        ⟨.relative,List.replicate (steps + 1 + 1) ".."⟩ := by
      rw [List.replicate_succ' (n := steps + 1)]
      simp [stepUp, Path.isAbsolute, Path.child, List.getLast?_replicate]
    rw [hstep]
    exact .above (.above h)
  | @child q dir name h hn _ =>
    have hstep : stepUp (q.child name) = q := by
      obtain ⟨anchor,segments⟩ := q
      have hne : (name == "..") = false := beq_false_of_ne hn.2.1
      simp [stepUp, Path.child, Path.parent, hne]
    rw [hstep, List.dropLast_concat]
    exact h

end Stands

theorem segments_join_descend (wd : Location) (q : Path) (names : List String) :
    ((Path.mk .root wd).join (q.descend names)).segments =
      ((Path.mk .root wd).join q).segments ++ names := by
  have hkind : (q.descend names).isAbsolute = q.isAbsolute := rfl
  unfold Path.join
  rw [hkind]
  split
  · rfl
  · exact (List.append_assoc ..).symm

theorem push_up (h : ∀ s ∈ dir, s ≠ "..") : Path.push true dir.reverse ".." = dir.dropLast.reverse := by
  rcases List.eq_nil_or_concat dir with rfl | ⟨init,last,rfl⟩
  · rfl
  · rw [List.concat_eq_append] at h ⊢
    have hlast : last ≠ ".." := h last (by simp)
    simp [Path.push, hlast]

namespace Stands

/-- Normalising the absolute form of a path gives where it stands. -/
theorem folds (h : fs.Stands q dir) :
    ((Path.mk .root fs.workingDirectory).join q).segments.foldl (Path.push true) [] = dir.reverse := by
  induction h with
  | root => rfl
  | here h =>
    have hjoin : ((Path.mk .root fs.workingDirectory).join ⟨.relative,[]⟩).segments =
        fs.workingDirectory := List.append_nil _
    rw [hjoin, Path.foldl_push fun s hs => (h.names s hs).2.1, List.append_nil]
  | @above dir steps h ih =>
    have hmore : Path.mk .relative (List.replicate (steps + 1) "..") =
        (Path.mk .relative (List.replicate steps "..")).descend [".."] := by
      rw [List.replicate_succ']
      rfl
    rw [hmore, segments_join_descend, List.foldl_append, ih]
    exact push_up fun s hs => (h.real.names s hs).2.1
  | @child q dir name h hn he ih =>
    have hpush : Path.push true dir.reverse name = name :: dir.reverse := if_pos hn.2.1
    rw [show q.child name = q.descend [name] from rfl, segments_join_descend, List.foldl_append, ih,
      List.foldl_cons, List.foldl_nil, hpush, List.reverse_append]
    rfl

theorem anchor (h : fs.Stands q dir) : q.anchor = .root ∨ q.anchor = .relative := by
  induction h with
  | root => exact .inl rfl
  | here | above => exact .inr rfl
  | child _ _ _ ih => exact ih

theorem absolute (h : fs.Stands q dir) (hn : ∀ s ∈ names, s ≠ "..") :
    (q.descend names).absolute fs.workingDirectory = Path.mk .root (dir ++ names) := by
  have hanchor : ((Path.mk .root fs.workingDirectory).join (q.descend names)).anchor = .root := by
    unfold Path.join
    split
    · rename_i habsolute
      rcases h.anchor with hroot | hrelative
      · exact hroot
      · simp [Path.isAbsolute, Path.descend, hrelative] at habsolute
    · rfl
  have hrooted : ((Path.mk .root fs.workingDirectory).join (q.descend names)).isAbsolute = true := by
    rw [Path.isAbsolute, hanchor]
    rfl
  rw [Path.absolute, Path.normalize, hanchor, hrooted, segments_join_descend, List.foldl_append, h.folds,
    Path.foldl_push hn, List.reverse_append, List.reverse_reverse, List.reverse_reverse]

end Stands

/-- The path written from the root stands for a real directory. -/
theorem IsReal.stands (h : fs.IsReal dir) : fs.Stands (Path.mk .root dir) dir := by
  induction dir using List.reverseRecOn with
  | nil => exact .root
  | append_singleton dir name ih =>
    obtain ⟨hn,he⟩ := h dir name (List.prefix_refl _)
    exact (ih (h.of_prefix (List.prefix_append ..))).child hn he

theorem linkTarget?_eq_none {p : Path} (h : pathLimit < p.text.utf8ByteSize) :
    fs.linkTarget? p = none := by
  unfold linkTarget? locate
  rw [if_pos h]

section Asked
variable (hs : fs.Stands q dir) (hp : Names piece)
include hs hp

/-- Whether a name below a path is a link can be asked when the path is short enough. -/
theorem linkTarget?_of_stands (hf : (q.child piece).text.utf8ByteSize ≤ pathLimit) :
    fs.linkTarget? (q.child piece) = match fs.entry? (dir ++ [piece]) with
      | some (.link target) => some target
      | _ => none := by
  have hlocate : fs.locate false (q.child piece) = fs.follow false linkLimit dir [piece] := by
    rw [locate_of_fits hf]
    change fs.follow false linkLimit (fs.origin q) (q.segments ++ [piece]) = _
    rw [follow, follow, hs.leads.advance_append rfl rfl]
  unfold linkTarget?
  rw [hlocate, follow, advance_cons hp]
  cases he : fs.entry? (dir ++ [piece]) with
  | none => simp
  | some entry => cases entry <;> simp [FileSystem.advance]

theorem linkTarget?_of_no_link (he : ∀ target, fs.entry? (dir ++ [piece]) ≠ some (.link target)) :
    fs.linkTarget? (q.child piece) = none := by
  rcases Nat.lt_or_ge pathLimit (q.child piece).text.utf8ByteSize with hlong | hfit
  · exact linkTarget?_eq_none hlong
  · rw [linkTarget?_of_stands hs hp hfit]
    split
    · rename_i target ht
      exact absurd ht (he target)
    · rfl

/-- Nothing is found beyond a name that a directory lacks or that is a file. -/
theorem linkTarget?_beyond (he : fs.entry? (dir ++ [piece]) = none ∨
    ∃ bytes, fs.entry? (dir ++ [piece]) = some (.file bytes)) (hr : rest ≠ []) :
    fs.linkTarget? ((q.child piece).descend rest) = none := by
  rcases Nat.lt_or_ge pathLimit ((q.child piece).descend rest).text.utf8ByteSize with hlong | hfit
  · exact linkTarget?_eq_none hlong
  · have hsegments : ((q.child piece).descend rest).segments = q.segments ++ piece :: rest := by
      simp [Path.child, Path.descend]
    have hlocate : fs.locate false ((q.child piece).descend rest) =
        fs.follow false linkLimit (fs.origin q) (q.segments ++ piece :: rest) := by
      rw [locate_of_fits hfit, hsegments]
      rfl
    unfold linkTarget?
    rw [hlocate, follow, hs.leads.advance_append rfl rfl, advance_cons hp]
    rcases he with he | ⟨bytes,he⟩
    · simp [he, hr]
    · simp [he, hr]

end Asked

/-- Whether an entry of a real directory is a link can be seen through a path that fits. -/
theorem linkTarget?_of_isReal (hd : fs.IsReal dir) (hp : Names piece) (hf : Fits (dir ++ [piece])) :
    fs.linkTarget? (Path.mk .root (dir ++ [piece])) = match fs.entry? (dir ++ [piece]) with
      | some (.link target) => some target
      | _ => none := linkTarget?_of_stands hd.stands hp hf

/-- An entry that is no link is never taken for one. -/
theorem linkTarget?_eq_none_of_isReal (hd : fs.IsReal dir) (hp : Names piece)
    (he : ∀ target, fs.entry? (dir ++ [piece]) ≠ some (.link target)) :
    fs.linkTarget? (Path.mk .root (dir ++ [piece])) = none := linkTarget?_of_no_link hd.stands hp he

/-- The path from which a link's target is read, the link lying below `q`. -/
def linkStart (q : Path) (target : String) : Path :=
  if (Path.parse target).isAbsolute then ⟨.root,[]⟩ else q

theorem Stands.linkStart (h : fs.Stands q dir) (target : String) :
    fs.Stands (linkStart q target) (linkOrigin dir target) := by
  unfold FileSystem.linkStart linkOrigin
  split
  · exact .root
  · exact h

theorem targetStart_eq (dir : Location) (target : String) :
    (if (Path.parse target).isAbsolute then ⟨.root,[]⟩ else Path.mk .root dir) =
      Path.mk .root (linkOrigin dir target) := by
  unfold linkOrigin
  split <;> rfl

/-- The path from which a path is read. -/
def readFrom (p : Path) : Path := ⟨if p.isAbsolute then .root else .relative,[]⟩

theorem stands_readFrom (h : fs.IsReal fs.workingDirectory) (p : Path) :
    fs.Stands (readFrom p) (fs.origin p) := by
  unfold readFrom origin
  split
  · exact .root
  · exact .here h

end WebAtlas.FileSystem
