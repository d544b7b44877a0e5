import WebAtlas.FileSystem.Basic

/-! # What a path leads to

Looking a path up as a relation: which entry the pieces lead to from a directory and which links are
followed on the way. The relation knows no limit on links, and a look-up succeeds exactly when it
holds with few enough of them.
-/
namespace WebAtlas.FileSystem
variable {fs : FileSystem}

/-- A piece that names an entry of a directory. -/
def Names (piece : String) : Prop :=
  Path.isVoid piece = false ∧ piece ≠ ".." ∧ nameFault? piece = none

instance : DecidablePred Names := fun _ => inferInstanceAs (Decidable (_ ∧ _ ∧ _))

/-- A piece that would name an entry, if it were not for a fault in it. -/
def Unfit (fault : FileFault) (piece : String) : Prop :=
  Path.isVoid piece = false ∧ piece ≠ ".." ∧ nameFault? piece = some fault

instance {fault : FileFault} : DecidablePred (Unfit fault) :=
  fun _ => inferInstanceAs (Decidable (_ ∧ _ ∧ _))

theorem utf8ByteSize_letters (n : Nat) : (String.ofList (List.replicate n 'n')).utf8ByteSize = n := by
  induction n with
  | zero => rfl
  | succ n ih =>
    rw [List.replicate_succ, String.ofList_cons, String.utf8ByteSize_append, ih, Nat.add_comm]
    rfl

theorem letters_ne {n : Nat} {name : String} (h : name.utf8ByteSize ≠ n) :
    String.ofList (List.replicate n 'n') ≠ name := by
  rintro rfl
  exact h (utf8ByteSize_letters n)

theorem slash_not_mem_letters (n : Nat) : '/' ∉ (String.ofList (List.replicate n 'n')).toList := by
  rw [String.toList_ofList, List.mem_replicate]
  simp

/-- Whether there is a fault in a letter repeated depends on how often it is. -/
theorem nameFault?_letters (n : Nat) : nameFault? (String.ofList (List.replicate n 'n')) =
    if nameLimit < n then some .nameTooLong else none := by
  have hnull : Path.holdsNull (String.ofList (List.replicate n 'n')) = false := by
    simp [Path.holdsNull]
  rw [nameFault?, hnull, utf8ByteSize_letters]
  rfl

theorem isVoid_letters {n : Nat} (hn : 2 < n) :
    Path.isVoid (String.ofList (List.replicate n 'n')) = false := by
  rw [Path.isVoid, Bool.or_eq_false_iff]
  exact ⟨beq_false_of_ne (letters_ne (Nat.ne_of_lt (Nat.zero_lt_of_lt hn))),
    beq_false_of_ne (letters_ne (Nat.ne_of_lt (Nat.lt_of_succ_lt hn)))⟩

theorem names_letters {n : Nat} (hn : 2 < n) (hlimit : n ≤ nameLimit) :
    Names (String.ofList (List.replicate n 'n')) :=
  ⟨isVoid_letters hn,letters_ne (Nat.ne_of_lt hn),
    (nameFault?_letters n).trans (if_neg (Nat.not_lt.mpr hlimit))⟩

theorem unfit_letters {n : Nat} (hn : 2 < n) (hlimit : nameLimit < n) :
    Unfit .nameTooLong (String.ofList (List.replicate n 'n')) :=
  ⟨isVoid_letters hn,letters_ne (Nat.ne_of_lt hn),(nameFault?_letters n).trans (if_pos hlimit)⟩

/-- From a directory the pieces lead to `entry` at `loc`; `links` are the locations of the links
followed on the way, in order. -/
inductive Leads (fs : FileSystem) : Location → List String → Location → Entry → List Location → Prop
  | here (dir : Location) : Leads fs dir [] dir .directory []
  | void {dir loc : Location} {piece : String} {rest : List String} {entry : Entry}
      {links : List Location} (hp : Path.isVoid piece = true) (h : Leads fs dir rest loc entry links) :
      Leads fs dir (piece :: rest) loc entry links
  | up {dir loc : Location} {rest : List String} {entry : Entry} {links : List Location}
      (h : Leads fs dir.dropLast rest loc entry links) : Leads fs dir (".." :: rest) loc entry links
  | enter {dir loc : Location} {piece : String} {rest : List String} {entry : Entry}
      {links : List Location} (hp : Names piece) (he : fs.entry? (dir ++ [piece]) = some .directory)
      (h : Leads fs (dir ++ [piece]) rest loc entry links) : Leads fs dir (piece :: rest) loc entry links
  | file {dir : Location} {piece : String} {bytes : List UInt8} (hp : Names piece)
      (he : fs.entry? (dir ++ [piece]) = some (.file bytes)) :
      Leads fs dir [piece] (dir ++ [piece]) (.file bytes) []
  | link {dir loc : Location} {piece target : String} {rest : List String} {entry : Entry}
      {links : List Location} (hp : Names piece) (he : fs.entry? (dir ++ [piece]) = some (.link target))
      (h : Leads fs (linkOrigin dir target) (Path.pieces target ++ rest) loc entry links) :
      Leads fs dir (piece :: rest) loc entry ((dir ++ [piece]) :: links)

theorem not_names_dotdot : ¬ Names ".." := fun h => h.2.1 rfl

theorem Names.void {piece : String} (h : Names piece) : ¬ Path.isVoid piece = true := by simp [h.1]

theorem nameFault?_eq_none {name : String} :
    nameFault? name = none ↔ Path.holdsNull name = false ∧ name.utf8ByteSize ≤ nameLimit := by
  unfold nameFault?
  cases Path.holdsNull name <;> simp

theorem nameFault?_cases {name : String} {fault : FileFault} (h : nameFault? name = some fault) :
    fault = .nullByte ∨ fault = .nameTooLong := by
  unfold nameFault? at h
  split at h
  · exact .inl (Option.some.inj h).symm
  · split at h <;> cases h
    exact .inr rfl

theorem nameFault?_eq_nameTooLong {name : String} : nameFault? name = some .nameTooLong ↔
    Path.holdsNull name = false ∧ nameLimit < name.utf8ByteSize := by
  unfold nameFault?
  cases Path.holdsNull name <;> simp

theorem mem_entries_of_eq {loc : Location} {entry : Entry} (h : fs.entry? loc = some entry)
    (hl : loc ≠ []) : (loc,entry) ∈ fs.entries := by
  unfold entry? at h
  rw [if_neg hl] at h
  obtain ⟨before,after,heq,-⟩ := List.lookup_eq_some_iff.mp h
  simp [heq]

theorem entry?_eq_some_of_mem {loc : Location} {entry : Entry} (hm : (loc,entry) ∈ fs.entries)
    (hu : ∀ e ∈ fs.entries, e.1 = loc → e.2 = entry) (hl : loc ≠ []) :
    fs.entry? loc = some entry := by
  have hsome : (fs.entries.lookup loc).isSome = true :=
    List.lookup_isSome_iff.mpr ⟨_,hm,by simp⟩
  obtain ⟨found,hfound⟩ := Option.isSome_iff_exists.mp hsome
  obtain ⟨before,after,heq,-⟩ := List.lookup_eq_some_iff.mp hfound
  have hentry : found = entry := hu (loc,found) (by simp [heq]) rfl
  unfold entry?
  rw [if_neg hl, hfound, hentry]

/-- One step of a walk along pieces at a piece that names an entry. -/
theorem advance_cons {followLast : Bool} {dir : Location} {piece : String} {rest : List String}
    (hp : Names piece) :
    fs.advance followLast dir (piece :: rest) = match fs.entry? (dir ++ [piece]) with
      | none => if rest = [] then .ok (.absent dir piece) else .error .missing
      | some .directory => advance fs followLast (dir ++ [piece]) rest
      | some (.file bytes) =>
        if rest = [] then .ok (.present (dir ++ [piece]) (.file bytes)) else .error .notDirectory
      | some (.link target) =>
        if rest = [] && !followLast then .ok (.present (dir ++ [piece]) (.link target))
        else .ok (.link dir target rest) := by
  rw [advance, if_neg hp.void, if_neg hp.2.1, hp.2.2]
  cases fs.entry? (dir ++ [piece]) with
  | none => rfl
  | some entry => cases entry <;> rfl

theorem advance_void {followLast : Bool} {dir : Location} {piece : String} {rest : List String}
    (hp : Path.isVoid piece = true) :
    fs.advance followLast dir (piece :: rest) = fs.advance followLast dir rest := by
  rw [advance, if_pos hp]

theorem advance_up {followLast : Bool} {dir : Location} {rest : List String} :
    fs.advance followLast dir (".." :: rest) = fs.advance followLast dir.dropLast rest := by
  rw [advance, if_neg (by decide), if_pos rfl]

/-- Every piece is void, steps up, names an entry or is unfit for a name. -/
theorem piece_cases (piece : String) :
    Path.isVoid piece = true ∨ piece = ".." ∨ Names piece ∨ ∃ fault, Unfit fault piece := by
  by_cases hv : Path.isVoid piece = true
  · exact .inl hv
  · by_cases hu : piece = ".."
    · exact .inr (.inl hu)
    · have hv' : Path.isVoid piece = false := by simpa using hv
      cases hf : nameFault? piece with
      | none => exact .inr (.inr (.inl ⟨hv',hu,hf⟩))
      | some fault => exact .inr (.inr (.inr ⟨fault,hv',hu,hf⟩))

theorem advance_unfit {followLast : Bool} {dir : Location} {piece : String} {rest : List String}
    {fault : FileFault} (hp : Unfit fault piece) :
    fs.advance followLast dir (piece :: rest) = .error fault := by
  rw [advance, if_neg (by simp [hp.1]), if_neg hp.2.1, hp.2.2]

/-- A walk that arrives at an entry has followed no link. -/
theorem leads_of_advance_present {pieces : List String} {dir loc : Location} {entry : Entry}
    (h : fs.advance true dir pieces = .ok (.present loc entry)) : fs.Leads dir pieces loc entry [] := by
  induction pieces generalizing dir with
  | nil => cases h; exact .here _
  | cons piece rest ih =>
    rcases piece_cases piece with hp | rfl | hp | ⟨fault,hp⟩
    · rw [advance_void hp] at h; exact .void hp (ih h)
    · rw [advance_up] at h; exact .up (ih h)
    · rw [advance_cons hp] at h
      cases he : fs.entry? (dir ++ [piece]) with
      | none => simp only [he] at h; split at h <;> cases h
      | some e =>
        cases e with
        | directory => simp only [he] at h; exact .enter hp he (ih h)
        | file bytes =>
          simp only [he] at h
          split at h
          · rename_i hr; subst hr; cases h; exact .file hp he
          · cases h
        | link target => simp [he] at h
    · rw [advance_unfit hp] at h; cases h

/-- A walk that stops at a link gets wherever the link's target and the rest lead. -/
theorem leads_of_advance_link {pieces rest : List String} {dir site loc : Location} {target : String}
    {entry : Entry} {links : List Location} (h : fs.advance true dir pieces = .ok (.link site target rest))
    (hl : fs.Leads (linkOrigin site target) (Path.pieces target ++ rest) loc entry links) :
    ∃ name, fs.Leads dir pieces loc entry ((site ++ [name]) :: links) := by
  induction pieces generalizing dir with
  | nil => cases h
  | cons piece ahead ih =>
    rcases piece_cases piece with hp | rfl | hp | ⟨fault,hp⟩
    · rw [advance_void hp] at h
      obtain ⟨name,hn⟩ := ih h
      exact ⟨name,.void hp hn⟩
    · rw [advance_up] at h
      obtain ⟨name,hn⟩ := ih h
      exact ⟨name,.up hn⟩
    · rw [advance_cons hp] at h
      cases he : fs.entry? (dir ++ [piece]) with
      | none => simp only [he] at h; split at h <;> cases h
      | some e =>
        cases e with
        | directory =>
          simp only [he] at h
          obtain ⟨name,hn⟩ := ih h
          exact ⟨name,.enter hp he hn⟩
        | file bytes => simp only [he] at h; split at h <;> cases h
        | link t =>
          simp only [he, Bool.not_true, Bool.and_false, Bool.false_eq_true, ↓reduceIte] at h
          cases h
          exact ⟨piece,.link hp he hl⟩
    · rw [advance_unfit hp] at h; cases h

/-- Where pieces lead, a walk along them arrives at once or stops at the first link followed. -/
theorem Leads.advance {pieces : List String} {dir loc : Location} {entry : Entry}
    {links : List Location} (h : fs.Leads dir pieces loc entry links) :
    (links = [] ∧ fs.advance true dir pieces = .ok (.present loc entry)) ∨
    ∃ site name target rest later, links = (site ++ [name]) :: later ∧
      fs.advance true dir pieces = .ok (.link site target rest) ∧
      fs.Leads (linkOrigin site target) (Path.pieces target ++ rest) loc entry later := by
  induction h with
  | here dir => exact .inl ⟨rfl,rfl⟩
  | void hp _ ih => simpa only [advance_void hp] using ih
  | up _ ih => simpa only [advance_up] using ih
  | enter hp he _ ih => simpa only [advance_cons hp, he] using ih
  | file hp he => exact .inl ⟨rfl,by simp [advance_cons hp, he]⟩
  | @link dir loc piece target rest entry links hp he h ih =>
    exact .inr ⟨dir,piece,target,rest,links,rfl,by simp [advance_cons hp, he],h⟩

/-- A look-up arrives at once, or spends one link of its budget on the first link met. -/
theorem follow_eq_present_cases {budget : Nat} {pieces : List String} {dir loc : Location}
    {entry : Entry} : fs.follow true budget dir pieces = .ok (.present loc entry) ↔
      fs.advance true dir pieces = .ok (.present loc entry) ∨
      ∃ left site target rest, budget = left + 1 ∧
        fs.advance true dir pieces = .ok (.link site target rest) ∧
        fs.follow true left (linkOrigin site target) (Path.pieces target ++ rest) =
          .ok (.present loc entry) := by
  rw [follow]
  cases ha : fs.advance true dir pieces with
  | error fault => simp
  | ok arrival =>
    cases arrival with
    | present l e => simp
    | absent d n => simp
    | link d t r =>
      cases budget with
      | zero => simp
      | succ budget =>
        constructor
        · intro h
          exact .inr ⟨budget,d,t,r,rfl,rfl,h⟩
        · rintro (h | ⟨_,_,_,_,hb,ht,h⟩)
          · cases h
          · cases hb
            cases ht
            exact h

/-- A look-up with a budget of links succeeds exactly where the pieces lead within the budget. -/
theorem follow_eq_present_iff {budget : Nat} {pieces : List String} {dir loc : Location}
    {entry : Entry} : fs.follow true budget dir pieces = .ok (.present loc entry) ↔
      ∃ links, links.length ≤ budget ∧ fs.Leads dir pieces loc entry links := by
  induction budget generalizing dir pieces with
  | zero =>
    rw [follow_eq_present_cases]
    constructor
    · rintro (ha | ⟨_,_,_,_,hb,-⟩)
      · exact ⟨[],Nat.le_refl _,leads_of_advance_present ha⟩
      · cases hb
    · rintro ⟨links,hlen,h⟩
      rcases h.advance with ⟨-,ha⟩ | ⟨_,_,_,_,_,rfl,-⟩
      · exact .inl ha
      · simp at hlen
  | succ budget ih =>
    rw [follow_eq_present_cases]
    constructor
    · rintro (ha | ⟨left,site,target,rest,hb,ha,hf⟩)
      · exact ⟨[],Nat.zero_le _,leads_of_advance_present ha⟩
      · cases hb
        obtain ⟨links,hlen,hl⟩ := ih.mp hf
        obtain ⟨name,hn⟩ := leads_of_advance_link ha hl
        exact ⟨_,by simpa using hlen,hn⟩
    · rintro ⟨links,hlen,h⟩
      rcases h.advance with ⟨-,ha⟩ | ⟨site,name,target,rest,later,rfl,ha,hl⟩
      · exact .inl ha
      · exact .inr ⟨budget,site,target,rest,rfl,ha,ih.mpr ⟨later,by simpa using hlen,hl⟩⟩

/-- A path leads to an entry when it is short enough and few enough links are followed. -/
theorem status_eq_ok_iff {p : Path} {loc : Location} {entry : Entry} :
    fs.status p = .ok (loc,entry) ↔ p.text.utf8ByteSize ≤ pathLimit ∧
      ∃ links, links.length ≤ linkLimit ∧ fs.Leads (fs.origin p) p.segments loc entry links := by
  rw [← follow_eq_present_iff]
  unfold status locate
  by_cases ht : pathLimit < p.text.utf8ByteSize
  · simp [ht, Nat.not_le.mpr ht]
  · rw [if_neg ht]
    simp only [Nat.not_lt.mp ht, true_and]
    cases fs.follow true linkLimit (fs.origin p) p.segments with
    | error fault => simp
    | ok arrival => cases arrival <;> simp

/-- Where pieces lead and through which links is determined by the pieces. -/
theorem Leads.deterministic {pieces : List String} {dir loc loc' : Location} {entry entry' : Entry}
    {links links' : List Location} (h : fs.Leads dir pieces loc entry links)
    (h' : fs.Leads dir pieces loc' entry' links') :
    loc = loc' ∧ entry = entry' ∧ links = links' := by
  induction h generalizing links' with
  | here dir => cases h'; exact ⟨rfl,rfl,rfl⟩
  | void hp _ ih =>
    cases h' with
    | void _ h' => exact ih h'
    | up _ => exact absurd hp (by decide)
    | enter hn | file hn | link hn => exact absurd hp hn.void
  | up _ ih =>
    cases h' with
    | void hp _ => exact absurd hp (by decide)
    | up h' => exact ih h'
    | enter hn | file hn | link hn => exact absurd hn not_names_dotdot
  | enter hn he _ ih =>
    cases h' with
    | void hp _ => exact absurd hp hn.void
    | up _ => exact absurd hn not_names_dotdot
    | enter _ _ h' => exact ih h'
    | file _ he' | link _ he' => rw [he] at he'; cases he'
  | file hn he =>
    cases h' with
    | void hp _ => exact absurd hp hn.void
    | up _ => exact absurd hn not_names_dotdot
    | enter _ he' | link _ he' => rw [he] at he'; cases he'
    | file _ he' => rw [he] at he'; cases he'; exact ⟨rfl,rfl,rfl⟩
  | link hn he _ ih =>
    cases h' with
    | void hp _ => exact absurd hp hn.void
    | up _ => exact absurd hn not_names_dotdot
    | enter _ he' | file _ he' => rw [he] at he'; cases he'
    | link _ he' h' =>
      rw [he] at he'
      cases he'
      obtain ⟨rfl,rfl,rfl⟩ := ih h'
      exact ⟨rfl,rfl,rfl⟩

/-- No piece on a way that leads somewhere holds a null byte. -/
theorem Leads.any_holdsNull {pieces : List String} {dir loc : Location} {entry : Entry}
    {links : List Location} (h : fs.Leads dir pieces loc entry links) :
    pieces.any Path.holdsNull = false := by
  have hnames {piece : String} (hp : Names piece) : Path.holdsNull piece = false :=
    (nameFault?_eq_none.mp hp.2.2).1
  induction h with
  | here dir => rfl
  | @void dir loc piece rest entry links hp _ ih =>
    have hpiece : piece = "" ∨ piece = "." := by simpa [Path.isVoid] using hp
    rw [List.any_cons, ih, Bool.or_false]
    rcases hpiece with rfl | rfl <;> decide
  | up _ ih => rw [List.any_cons, ih]; decide
  | enter hp _ _ ih => rw [List.any_cons, hnames hp, ih]; rfl
  | file hp _ => rw [List.any_cons, hnames hp]; rfl
  | link hp _ _ ih =>
    rw [List.any_append, Bool.or_eq_false_iff] at ih
    rw [List.any_cons, hnames hp, ih.2]
    rfl

theorem any_holdsNull_of_status {p : Path} {found : Location × Entry} (h : fs.status p = .ok found) :
    p.segments.any Path.holdsNull = false := by
  obtain ⟨-,links,-,hleads⟩ := status_eq_ok_iff.mp h
  exact hleads.any_holdsNull

/-- Pieces may be gone through in two parts, a directory lying between them. -/
theorem Leads.append {xs ys : List String} {dir mid loc : Location} {e entry : Entry}
    {links later : List Location} (h : fs.Leads dir xs mid e links) (hd : e = .directory)
    (h' : fs.Leads mid ys loc entry later) : fs.Leads dir (xs ++ ys) loc entry (links ++ later) := by
  induction h with
  | here dir => exact h'
  | void hp _ ih => exact .void hp (ih hd h')
  | up _ ih => exact .up (ih hd h')
  | enter hp he _ ih => exact .enter hp he (ih hd h')
  | file hp he => cases hd
  | link hp he _ ih => exact .link hp he (by simpa using ih hd h')

/-- Where pieces lead, every proper first part of them leads to a directory. -/
theorem Leads.split {xs ys : List String} {dir loc : Location} {entry : Entry}
    {links : List Location} (h : fs.Leads dir (xs ++ ys) loc entry links) (hy : ys ≠ []) :
    ∃ mid before later, fs.Leads dir xs mid .directory before ∧ fs.Leads mid ys loc entry later ∧
      links = before ++ later := by
  generalize hz : xs ++ ys = pieces at h
  induction h generalizing xs with
  | here dir => simp_all
  | @void dir loc piece rest entry links hp h ih =>
    cases xs with
    | nil => exact ⟨dir,[],links,.here dir,by simpa [← hz] using Leads.void hp h,rfl⟩
    | cons x xs =>
      obtain ⟨rfl,hr⟩ := List.cons.inj hz
      obtain ⟨mid,before,later,h1,h2,rfl⟩ := ih hr
      exact ⟨mid,before,later,.void hp h1,h2,rfl⟩
  | @up dir loc rest entry links h ih =>
    cases xs with
    | nil => exact ⟨dir,[],links,.here dir,by simpa [← hz] using Leads.up h,rfl⟩
    | cons x xs =>
      obtain ⟨rfl,hr⟩ := List.cons.inj hz
      obtain ⟨mid,before,later,h1,h2,rfl⟩ := ih hr
      exact ⟨mid,before,later,.up h1,h2,rfl⟩
  | @enter dir loc piece rest entry links hp he h ih =>
    cases xs with
    | nil => exact ⟨dir,[],links,.here dir,by simpa [← hz] using Leads.enter hp he h,rfl⟩
    | cons x xs =>
      obtain ⟨rfl,hr⟩ := List.cons.inj hz
      obtain ⟨mid,before,later,h1,h2,rfl⟩ := ih hr
      exact ⟨mid,before,later,.enter hp he h1,h2,rfl⟩
  | @file dir piece bytes hp he =>
    cases xs with
    | nil => exact ⟨dir,[],[],.here dir,by simpa [← hz] using Leads.file hp he,rfl⟩
    | cons x xs => simp_all
  | @link dir loc piece target rest entry links hp he h ih =>
    cases xs with
    | nil => exact ⟨dir,[],_,.here dir,by simpa [← hz] using Leads.link hp he h,rfl⟩
    | cons x xs =>
      obtain ⟨rfl,hr⟩ := List.cons.inj hz
      obtain ⟨mid,before,later,h1,h2,rfl⟩ := @ih (Path.pieces target ++ xs)
        ((List.append_assoc ..).trans (congrArg _ hr))
      exact ⟨mid,_,later,.link hp he h1,h2,rfl⟩

theorem status_of_read {p : Path} {bytes : List UInt8} (h : fs.read p = .ok bytes) :
    ∃ loc, fs.status p = .ok (loc,.file bytes) := by
  unfold read at h
  split at h
  · cases h
    rename_i loc hs
    exact ⟨loc,hs⟩
  all_goals cases h

theorem hasFile_iff {p : Path} :
    fs.hasFile p = true ↔ ∃ loc bytes, fs.status p = .ok (loc,.file bytes) := by
  unfold hasFile
  cases hs : fs.status p with
  | error fault => simp
  | ok found =>
    rcases found with ⟨loc,entry⟩
    cases entry <;> simp [Entry.isFile]

theorem read_of_status {p : Path} {loc : Location} {bytes : List UInt8}
    (h : fs.status p = .ok (loc,.file bytes)) : fs.read p = .ok bytes := by
  unfold read
  rw [h]

/-- Absolute paths of the same names lead to the same file. -/
theorem read_inj {p q : Path} {bytes bytes' : List UInt8} (hp : p.isAbsolute = true)
    (hq : q.isAbsolute = true) (hsegments : p.segments = q.segments) (h : fs.read p = .ok bytes)
    (h' : fs.read q = .ok bytes') : bytes' = bytes := by
  obtain ⟨loc,hs⟩ := status_of_read h
  obtain ⟨loc',hs'⟩ := status_of_read h'
  obtain ⟨-,links,-,hleads⟩ := status_eq_ok_iff.mp hs
  obtain ⟨-,links',-,hleads'⟩ := status_eq_ok_iff.mp hs'
  rw [origin, if_pos hp, hsegments] at hleads
  rw [origin, if_pos hq] at hleads'
  obtain ⟨-,hentry,-⟩ := hleads'.deterministic hleads
  exact Entry.file.inj hentry

theorem firstFile?_cons {p : Path} {paths : List Path} {loc : Location} {bytes : List UInt8}
    (h : fs.status p = .ok (loc,.file bytes)) : fs.firstFile? (p :: paths) = .ok (some p) := by
  have ht : fs.isFile? p = .ok true := by
    unfold isFile? test
    rw [h]
    rfl
  rw [firstFile?, ht]

theorem isFile?_of_absent {p : Path} (h : fs.status p = .error .missing) : fs.isFile? p = .ok false := by
  unfold isFile? test
  rw [h]

theorem test_eq_true_iff {accepts : Entry → Bool} {p : Path} : fs.test accepts p = .ok true ↔
    ∃ loc entry, fs.status p = .ok (loc,entry) ∧ accepts entry = true := by
  unfold test
  split
  · rename_i loc entry hs
    simp only [hs, Except.ok.injEq, Prod.mk.injEq]
    exact ⟨fun h => ⟨loc,entry,⟨rfl,rfl⟩,h⟩,by rintro ⟨_,_,⟨rfl,rfl⟩,h⟩; exact h⟩
  · rename_i hs
    split <;> simp [hs]
  · rename_i fault hs
    simp [hs]

theorem isFile?_eq_true {p : Path} (h : fs.isFile? p = .ok true) :
    ∃ loc bytes, fs.status p = .ok (loc,.file bytes) := by
  obtain ⟨loc,entry,hs,he⟩ := test_eq_true_iff.mp h
  cases entry with
  | file bytes => exact ⟨loc,bytes,hs⟩
  | directory => cases he
  | link target => cases he

theorem firstFile?_eq_some {paths : List Path} {p : Path} (h : fs.firstFile? paths = .ok (some p)) :
    p ∈ paths ∧ ∃ loc bytes, fs.status p = .ok (loc,.file bytes) := by
  induction paths with
  | nil => cases h
  | cons q paths ih =>
    unfold firstFile? at h
    split at h
    · cases h
      rename_i hq
      exact ⟨List.mem_cons_self,isFile?_eq_true hq⟩
    · obtain ⟨hp,hs⟩ := ih h
      exact ⟨List.mem_cons_of_mem _ hp,hs⟩
    · cases h

end WebAtlas.FileSystem
