import WebAtlas.Proofs.FileSystem.RealDirectory

/-! # Where a walk along a path ends

A walk that keeps to the limits arrives at an entry, or it breaks off at a name that a directory lacks
or behind a file.
-/
namespace WebAtlas.FileSystem
variable {fs : FileSystem} {q : Path} {dir : Location} {target : String} {pieces rest : List String}

structure Ending where
  path : Path
  location : Location
  found : Option Entry
  ahead : List String

def solid (pieces : List String) : List String := pieces.filter (!Path.isVoid ·)

/-- The path that a walk leaves behind, with what it has not gone through. -/
def Ending.whole (e : Ending) : Path := e.path.descend (solid e.ahead)

theorem Ending.whole_of_ahead_nil {loc : Location} {found : Option Entry} :
    Ending.whole ⟨q,loc,found,[]⟩ = q := Path.descend_nil q

def Ending.wholeLocation (e : Ending) : Location := e.location ++ solid e.ahead

/-- From the path `q`, which stands for `dir`, a walk along the pieces ends at `e`; `asked` are the
paths by which the links on the way are asked for. -/
inductive Ends (fs : FileSystem) : Path → Location → List String → Ending → List Path → Prop
  | here (q : Path) (dir : Location) : Ends fs q dir [] ⟨q,dir,some .directory,[]⟩ []
  | void {q : Path} {dir : Location} {piece : String} {rest : List String} {e : Ending}
      {asked : List Path} (hp : Path.isVoid piece = true) (h : Ends fs q dir rest e asked) :
      Ends fs q dir (piece :: rest) e asked
  | up {q : Path} {dir : Location} {rest : List String} {e : Ending} {asked : List Path}
      (h : Ends fs (stepUp q) dir.dropLast rest e asked) : Ends fs q dir (".." :: rest) e asked
  | enter {q : Path} {dir : Location} {piece : String} {rest : List String} {e : Ending}
      {asked : List Path} (hp : Names piece) (he : fs.entry? (dir ++ [piece]) = some .directory)
      (h : Ends fs (q.child piece) (dir ++ [piece]) rest e asked) :
      Ends fs q dir (piece :: rest) e asked
  | file {q : Path} {dir : Location} {piece : String} {bytes : List UInt8} (hp : Names piece)
      (he : fs.entry? (dir ++ [piece]) = some (.file bytes)) :
      Ends fs q dir [piece] ⟨q.child piece,dir ++ [piece],some (.file bytes),[]⟩ []
  | absent {q : Path} {dir : Location} {piece : String} {rest : List String} (hp : Names piece)
      (he : fs.entry? (dir ++ [piece]) = none) :
      Ends fs q dir (piece :: rest) ⟨q.child piece,dir ++ [piece],none,rest⟩ []
  | beyond {q : Path} {dir : Location} {piece : String} {rest : List String} {bytes : List UInt8}
      (hp : Names piece) (he : fs.entry? (dir ++ [piece]) = some (.file bytes)) (hr : rest ≠ []) :
      Ends fs q dir (piece :: rest) ⟨q.child piece,dir ++ [piece],none,rest⟩ []
  | link {q : Path} {dir : Location} {piece target : String} {rest : List String} {e : Ending}
      {asked : List Path} (hp : Names piece) (he : fs.entry? (dir ++ [piece]) = some (.link target))
      (h : Ends fs (linkStart q target) (linkOrigin dir target) (Path.pieces target ++ rest) e asked) :
      Ends fs q dir (piece :: rest) e (q.child piece :: asked)

/-- A walk from a path at the root that leads somewhere ends there, and asks for every link at its
location. -/
theorem Leads.ends {loc : Location} {entry : Entry} {links : List Location}
    (h : fs.Leads dir pieces loc entry links) : fs.Ends (Path.mk .root dir) dir pieces
      ⟨Path.mk .root loc,loc,some entry,[]⟩ (links.map (Path.mk .root)) := by
  induction h with
  | here dir => exact .here _ dir
  | void hp _ ih => exact .void hp ih
  | up _ ih => exact .up ih
  | enter hp he _ ih => exact .enter hp he ih
  | file hp he => exact .file hp he
  | @link dir piece _ target _ _ _ hp he _ ih =>
    refine .link hp he ?_
    rwa [linkStart, targetStart_eq]

/-- Where pieces lead, a walk along them ends from every path. -/
theorem Leads.ends_from {loc : Location} {entry : Entry} {links : List Location}
    (h : fs.Leads dir pieces loc entry links) (q : Path) :
    ∃ path asked, fs.Ends q dir pieces ⟨path,loc,some entry,[]⟩ asked := by
  induction h generalizing q with
  | here dir => exact ⟨q,[],.here q dir⟩
  | void hp _ ih =>
    obtain ⟨path,asked,hends⟩ := ih q
    exact ⟨path,asked,.void hp hends⟩
  | up _ ih =>
    obtain ⟨path,asked,hends⟩ := ih (stepUp q)
    exact ⟨path,asked,.up hends⟩
  | @enter dir _ piece _ _ _ hp he _ ih =>
    obtain ⟨path,asked,hends⟩ := ih (q.child piece)
    exact ⟨path,asked,.enter hp he hends⟩
  | @file dir piece _ hp he => exact ⟨q.child piece,[],.file hp he⟩
  | @link dir _ piece target _ _ _ hp he _ ih =>
    obtain ⟨path,asked,hends⟩ := ih (linkStart q target)
    exact ⟨path,q.child piece :: asked,.link hp he hends⟩

/-- A path at which a walk ends without a directory: a name that is missing or a file. -/
inductive Stuck (fs : FileSystem) : Path → Location → Prop
  | below {q : Path} {dir : Location} {piece : String} (hs : fs.Stands q dir) (hp : Names piece)
      (he : fs.entry? (dir ++ [piece]) = none ∨
        ∃ bytes, fs.entry? (dir ++ [piece]) = some (.file bytes)) :
      Stuck fs (q.child piece) (dir ++ [piece])

/-- Neither at a path that is stuck nor beyond it is there a directory, and looking there meets no
limit. -/
theorem Stuck.status {loc : Location} (h : fs.Stuck q loc) (names : List String)
    (hf : Fits (loc ++ names)) : fs.status (Path.mk .root (loc ++ names)) = .error .missing ∨
      fs.status (Path.mk .root (loc ++ names)) = .error .notDirectory ∨
      ∃ bytes, fs.status (Path.mk .root (loc ++ names)) = .ok (loc,.file bytes) := by
  cases h with
  | @below q dir piece hs hp he =>
    rw [List.append_assoc, List.singleton_append] at hf ⊢
    rcases he with he | ⟨bytes,he⟩
    · exact .inl (status_of_absent hs.real hp he hf)
    · have hadvance : fs.advance true [] (dir ++ piece :: names) =
          if names = [] then .ok (.present (dir ++ [piece]) (.file bytes)) else .error .notDirectory := by
        rw [advance_append_of_isReal (by simpa using hs.real), List.nil_append, advance_cons hp, he]
      unfold FileSystem.status
      rw [locate_root hf, follow, hadvance]
      by_cases hn : names = []
      · rw [if_pos hn]
        exact .inr (.inr ⟨bytes,rfl⟩)
      · rw [if_neg hn]
        exact .inr (.inl rfl)

variable {e e' : Ending} {asked asked' : List Path}

/-- A walk from a path that stands ends at one that stands or is stuck. -/
theorem Ends.stands_or_stuck (h : fs.Ends q dir pieces e asked) (hs : fs.Stands q dir) :
    (e.found = some .directory ∧ e.ahead = [] ∧ fs.Stands e.path e.location) ∨
      e.found ≠ some .directory ∧ fs.Stuck e.path e.location := by
  induction h with
  | here => exact .inl ⟨rfl,rfl,hs⟩
  | void _ _ ih => exact ih hs
  | up _ ih => exact ih hs.up
  | enter hp he _ ih => exact ih (hs.child hp he)
  | file hp he => exact .inr ⟨nofun,.below hs hp (.inr ⟨_,he⟩)⟩
  | absent hp he => exact .inr ⟨nofun,.below hs hp (.inl he)⟩
  | beyond hp he _ => exact .inr ⟨nofun,.below hs hp (.inr ⟨_,he⟩)⟩
  | link _ _ _ ih => exact ih (hs.linkStart _)

/-- Where a walk ends does not depend on the path by which its start is reached, and neither does the
number of links; by which paths they are asked for does. -/
theorem Ends.same (h : fs.Ends q dir pieces e asked) {q' : Path}
    (h' : fs.Ends q' dir pieces e' asked') : e.location = e'.location ∧ e.found = e'.found ∧
      e.ahead = e'.ahead ∧ asked.length = asked'.length ∧ (q = q' → asked = asked') := by
  induction h generalizing q' asked' with
  | here => cases h'; exact ⟨rfl,rfl,rfl,rfl,fun _ => rfl⟩
  | void hp _ ih =>
    cases h' with
    | void _ h' => exact ih h'
    | up _ => exact absurd hp (by decide)
    | enter hn | file hn | absent hn | beyond hn | link hn => exact absurd hp hn.void
  | up _ ih =>
    cases h' with
    | void hp _ => exact absurd hp (by decide)
    | up h' =>
      obtain ⟨hloc,hfound,hahead,hlength,hasked⟩ := ih h'
      exact ⟨hloc,hfound,hahead,hlength,fun hq => hasked (congrArg stepUp hq)⟩
    | enter hn | file hn | absent hn | beyond hn | link hn => exact absurd hn not_names_dotdot
  | enter hn he _ ih =>
    cases h' with
    | void hp _ => exact absurd hp hn.void
    | up _ => exact absurd hn not_names_dotdot
    | enter _ _ h' =>
      obtain ⟨hloc,hfound,hahead,hlength,hasked⟩ := ih h'
      exact ⟨hloc,hfound,hahead,hlength,fun hq => hasked (hq ▸ rfl)⟩
    | file _ he' | absent _ he' | beyond _ he' | link _ he' => rw [he] at he'; cases he'
  | file hn he =>
    cases h' with
    | void hp _ => exact absurd hp hn.void
    | up _ => exact absurd hn not_names_dotdot
    | file _ he' => rw [he] at he'; cases he'; exact ⟨rfl,rfl,rfl,rfl,fun _ => rfl⟩
    | beyond _ _ hr => exact absurd rfl hr
    | enter _ he' | absent _ he' | link _ he' => rw [he] at he'; cases he'
  | absent hn he =>
    cases h' with
    | void hp _ => exact absurd hp hn.void
    | up _ => exact absurd hn not_names_dotdot
    | absent => exact ⟨rfl,rfl,rfl,rfl,fun _ => rfl⟩
    | enter _ he' | file _ he' | beyond _ he' | link _ he' => rw [he] at he'; cases he'
  | beyond hn he hr =>
    cases h' with
    | void hp _ => exact absurd hp hn.void
    | up _ => exact absurd hn not_names_dotdot
    | file => exact absurd rfl hr
    | beyond => exact ⟨rfl,rfl,rfl,rfl,fun _ => rfl⟩
    | enter _ he' | absent _ he' | link _ he' => rw [he] at he'; cases he'
  | @link q dir piece target rest e asked hn he _ ih =>
    cases h' with
    | void hp _ => exact absurd hp hn.void
    | up _ => exact absurd hn not_names_dotdot
    | link _ he' h' =>
      rw [he] at he'
      cases he'
      obtain ⟨hloc,hfound,hahead,hlength,hasked⟩ := ih h'
      refine ⟨hloc,hfound,hahead,congrArg (· + 1) hlength,?_⟩
      rintro rfl
      rw [hasked rfl]
    | enter _ he' | file _ he' | absent _ he' | beyond _ he' => rw [he] at he'; cases he'

/-- A walk in two parts: the second goes on from a directory, or the first ends all of it. -/
def Splits (fs : FileSystem) (q : Path) (dir : Location) (xs ys : List String) (e : Ending)
    (asked : List Path) : Prop :=
  (∃ path mid before after, fs.Ends q dir xs ⟨path,mid,some .directory,[]⟩ before ∧
    fs.Ends path mid ys e after ∧ asked = before ++ after) ∨
  ∃ found ahead, fs.Ends q dir xs ⟨e.path,e.location,found,ahead⟩ asked ∧
    found ≠ some .directory ∧ e.ahead = ahead ++ ys

theorem Splits.start (h : fs.Ends q dir ys e asked) : fs.Splits q dir [] ys e asked :=
  .inl ⟨q,dir,[],asked,.here q dir,h,rfl⟩

/-- A walk can be split after a step when what follows the step can. -/
theorem Splits.step {q' : Path} {dir' : Location} {xs' : List String} (first : List Path)
    (hstep : ∀ {e asked}, fs.Ends q' dir' xs' e asked → fs.Ends q dir xs e (first ++ asked))
    (h : fs.Splits q' dir' xs' ys e asked) : fs.Splits q dir xs ys e (first ++ asked) := by
  rcases h with ⟨path,mid,before,after,hbefore,hafter,rfl⟩ | ⟨found,ahead,hends,hfound,hahead⟩
  · exact .inl ⟨path,mid,first ++ before,after,hstep hbefore,hafter,(List.append_assoc ..).symm⟩
  · exact .inr ⟨found,ahead,hstep hends,hfound,hahead⟩

/-- Every walk can be split. A link puts the names of its target before the rest of the first part, so
the induction is on the walk and not on the names. -/
theorem Ends.split (h : fs.Ends q dir (xs ++ ys) e asked) : fs.Splits q dir xs ys e asked := by
  generalize hz : xs ++ ys = all at h
  induction h generalizing xs with
  | here q dir =>
    obtain ⟨rfl,rfl⟩ := List.append_eq_nil_iff.mp hz
    exact .start (.here q dir)
  | void hp h ih =>
    cases xs with
    | nil => exact .start ((show ys = _ from hz) ▸ .void hp h)
    | cons x xs =>
      obtain ⟨rfl,hr⟩ := List.cons.inj hz
      exact .step [] (.void hp) (ih hr)
  | up h ih =>
    cases xs with
    | nil => exact .start ((show ys = _ from hz) ▸ .up h)
    | cons x xs =>
      obtain ⟨rfl,hr⟩ := List.cons.inj hz
      exact .step [] .up (ih hr)
  | enter hp he h ih =>
    cases xs with
    | nil => exact .start ((show ys = _ from hz) ▸ .enter hp he h)
    | cons x xs =>
      obtain ⟨rfl,hr⟩ := List.cons.inj hz
      exact .step [] (.enter hp he) (ih hr)
  | file hp he =>
    cases xs with
    | nil =>
      obtain rfl : ys = [_] := hz
      exact .start (.file hp he)
    | cons x xs =>
      obtain ⟨rfl,hr⟩ := List.cons.inj hz
      obtain ⟨rfl,rfl⟩ := List.append_eq_nil_iff.mp hr
      exact .inr ⟨_,[],.file hp he,nofun,rfl⟩
  | absent hp he =>
    cases xs with
    | nil => exact .start ((show ys = _ from hz) ▸ .absent hp he)
    | cons x xs =>
      obtain ⟨rfl,rfl⟩ := List.cons.inj hz
      exact .inr ⟨none,xs,.absent hp he,nofun,rfl⟩
  | beyond hp he hr =>
    cases xs with
    | nil => exact .start ((show ys = _ from hz) ▸ .beyond hp he hr)
    | cons x xs =>
      obtain ⟨rfl,rfl⟩ := List.cons.inj hz
      cases xs with
      | nil => exact .inr ⟨_,[],.file hp he,nofun,rfl⟩
      | cons y xs => exact .inr ⟨none,y :: xs,.beyond hp he (List.cons_ne_nil _ _),nofun,rfl⟩
  | link hp he h ih =>
    cases xs with
    | nil => exact .start ((show ys = _ from hz) ▸ .link hp he h)
    | cons x xs =>
      obtain ⟨rfl,rfl⟩ := List.cons.inj hz
      exact .step [_] (.link hp he) (ih (List.append_assoc ..))

/-- What a walk up to its first link says about its end. -/
def Foretells (fs : FileSystem) (q : Path) (dir : Location) (pieces : List String) :
    Except FileFault Arrival → Prop
  | .ok (.present loc entry) =>
    ∃ e, fs.Ends q dir pieces e [] ∧ e.location = loc ∧ e.found = some entry
  | .ok (.absent _ _) | .error .missing | .error .notDirectory =>
    ∃ e, fs.Ends q dir pieces e [] ∧ e.found = none
  | .ok (.link site target rest) => ∃ path, ∀ e asked,
    fs.Ends (linkStart path target) (linkOrigin site target) (Path.pieces target ++ rest) e asked →
      ∃ first, fs.Ends q dir pieces e (first :: asked)
  | .error fault => fault = .nullByte ∨ fault = .nameTooLong

theorem Foretells.of_step {q' : Path} {dir' : Location} {arrival : Except FileFault Arrival}
    (h : fs.Foretells q' dir' rest arrival)
    (hstep : ∀ e asked, fs.Ends q' dir' rest e asked → fs.Ends q dir pieces e asked) :
    fs.Foretells q dir pieces arrival := by
  unfold Foretells at h ⊢
  split at h
  · obtain ⟨e,hends,hfound⟩ := h
    exact ⟨e,hstep _ _ hends,hfound⟩
  · obtain ⟨e,hends,hfound⟩ := h
    exact ⟨e,hstep _ _ hends,hfound⟩
  · obtain ⟨e,hends,hfound⟩ := h
    exact ⟨e,hstep _ _ hends,hfound⟩
  · obtain ⟨e,hends,hfound⟩ := h
    exact ⟨e,hstep _ _ hends,hfound⟩
  · obtain ⟨path,hlink⟩ := h
    refine ⟨path,fun e asked hends => ?_⟩
    obtain ⟨first,hfirst⟩ := hlink e asked hends
    exact ⟨first,hstep _ _ hfirst⟩
  · exact h

theorem advance_foretells (q : Path) (dir : Location) (pieces : List String) :
    fs.Foretells q dir pieces (fs.advance true dir pieces) := by
  induction pieces generalizing q dir with
  | nil => exact ⟨_,.here q dir,rfl,rfl⟩
  | cons piece rest ih =>
    rcases piece_cases piece with hp | rfl | hp | ⟨fault,hp⟩
    · rw [advance_void hp]
      exact (ih q dir).of_step fun _ _ => .void hp
    · rw [advance_up]
      exact (ih (stepUp q) dir.dropLast).of_step fun _ _ => .up
    · rw [advance_cons hp]
      cases he : fs.entry? (dir ++ [piece]) with
      | none =>
        dsimp only
        split
        · exact ⟨_,.absent hp he,rfl⟩
        · exact ⟨_,.absent hp he,rfl⟩
      | some entry =>
        cases entry with
        | directory => exact (ih (q.child piece) (dir ++ [piece])).of_step fun _ _ => .enter hp he
        | file bytes =>
          dsimp only
          split
          · rename_i hr
            subst hr
            exact ⟨_,.file hp he,rfl,rfl⟩
          · rename_i hr
            exact ⟨_,.beyond hp he hr,rfl⟩
        | link target =>
          simp only [Bool.not_true, Bool.and_false, Bool.false_eq_true, ↓reduceIte]
          exact ⟨q,fun e asked h => ⟨_,.link hp he h⟩⟩
    · rw [advance_unfit hp]
      rcases nameFault?_cases hp.2.2 with rfl | rfl
      · exact .inl rfl
      · exact .inr rfl

theorem Foretells.ends {arrival : Except FileFault Arrival} (h : fs.Foretells q dir pieces arrival)
    (hnull : arrival ≠ .error .nullByte) (hname : arrival ≠ .error .nameTooLong)
    (hlink : ∀ site target rest, arrival ≠ .ok (.link site target rest)) :
    ∃ e asked, fs.Ends q dir pieces e asked ∧ ∀ loc entry,
      arrival = .ok (.present loc entry) ↔ e.location = loc ∧ e.found = some entry := by
  unfold Foretells at h
  split at h
  · obtain ⟨e,hends,hloc,hfound⟩ := h
    refine ⟨e,[],hends,fun loc entry => ?_⟩
    rw [hloc, hfound]
    simp
  · obtain ⟨e,hends,hfound⟩ := h
    exact ⟨e,[],hends,fun loc entry => by simp [hfound]⟩
  · obtain ⟨e,hends,hfound⟩ := h
    exact ⟨e,[],hends,fun loc entry => by simp [hfound]⟩
  · obtain ⟨e,hends,hfound⟩ := h
    exact ⟨e,[],hends,fun loc entry => by simp [hfound]⟩
  · exact absurd rfl (hlink _ _ _)
  · rcases h with rfl | rfl
    · exact absurd rfl hnull
    · exact absurd rfl hname

theorem follow_of_no_link {budget : Nat}
    (h : ∀ site target rest, fs.advance true dir pieces ≠ .ok (.link site target rest)) :
    fs.follow true budget dir pieces = fs.advance true dir pieces := by
  rw [follow]
  split
  · rename_i site target rest hlink
    exact absurd hlink (h site target rest)
  · rfl

theorem follow_of_link {budget : Nat} {site : Location}
    (h : fs.advance true dir pieces = .ok (.link site target rest)) :
    fs.follow true (budget + 1) dir pieces =
      fs.follow true budget (linkOrigin site target) (Path.pieces target ++ rest) := by
  rw [follow, h]

/-- A look-up that is not refused for a limit tells where the walk ends. -/
theorem follow_ends (budget : Nat) (q : Path) {dir : Location} {pieces : List String}
    (hlinks : fs.follow true budget dir pieces ≠ .error .tooManyLinks)
    (hnull : fs.follow true budget dir pieces ≠ .error .nullByte)
    (hnames : fs.follow true budget dir pieces ≠ .error .nameTooLong) :
    ∃ e asked, fs.Ends q dir pieces e asked ∧ ∀ loc entry,
      fs.follow true budget dir pieces = .ok (.present loc entry) ↔
        e.location = loc ∧ e.found = some entry := by
  induction budget generalizing q dir pieces with
  | zero =>
    have hno : ∀ site target rest, fs.advance true dir pieces ≠ .ok (.link site target rest) := by
      intro site target rest hlink
      exact hlinks (by rw [follow, hlink])
    rw [follow_of_no_link hno] at hnull hnames ⊢
    exact (advance_foretells q dir pieces).ends hnull hnames hno
  | succ budget ih =>
    have hadvance := @advance_foretells fs q dir pieces
    by_cases hlink : ∃ site target rest, fs.advance true dir pieces = .ok (.link site target rest)
    · obtain ⟨site,target,rest,hlink⟩ := hlink
      rw [hlink] at hadvance
      rw [follow_of_link hlink] at hlinks hnull hnames ⊢
      obtain ⟨path,hpath⟩ := hadvance
      obtain ⟨e,asked,hends,hfound⟩ := ih (linkStart path target) hlinks hnull hnames
      obtain ⟨first,hfirst⟩ := hpath e asked hends
      exact ⟨e,first :: asked,hfirst,hfound⟩
    · simp only [not_exists] at hlink
      rw [follow_of_no_link hlink] at hnull hnames ⊢
      exact hadvance.ends hnull hnames hlink

end WebAtlas.FileSystem
