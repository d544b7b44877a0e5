import WebAtlas.Proofs.FileSystem.WellFormed

/-! # What a written file changes

A file that is written takes the place that its path leads to, a regular file or a free name. Every
look-up that comes to this place finds the file afterwards, and every other goes as before.
-/
namespace WebAtlas.FileSystem
variable {fs after : FileSystem} {site : Location} {bytes : List UInt8} {p q : Path}

theorem lookup_filter_ne {entries : List (Location × Entry)} {loc : Location} :
    (entries.filter (·.1 != site)).lookup loc = if loc = site then none else entries.lookup loc := by
  induction entries with
  | nil => simp
  | cons e entries ih =>
    obtain ⟨home,entry⟩ := e
    by_cases hsite : home = site
    · subst hsite
      rw [List.filter_cons_of_neg (by simp), ih]
      split
      · rfl
      · rename_i hne
        rw [List.lookup_cons, beq_false_of_ne hne]
    · rw [List.filter_cons_of_pos (by simpa using hsite), List.lookup_cons, List.lookup_cons, ih]
      by_cases hloc : loc = home
      · subst hloc
        simp [hsite]
      · rw [beq_false_of_ne hloc]

theorem entry?_put {loc : Location} {entry : Entry} (hs : site ≠ []) :
    entry? (fs.put site entry) loc = if loc = site then some entry else fs.entry? loc := by
  unfold entry? put
  by_cases hnil : loc = []
  · rw [if_pos hnil, if_pos hnil, if_neg (hnil ▸ hs.symm)]
  · rw [if_neg hnil, if_neg hnil, List.lookup_append, lookup_filter_ne]
    by_cases hloc : loc = site
    · simp [hloc]
    · simp [hloc, List.lookup_cons, beq_false_of_ne hloc]

/-- The place that a file takes when it is written where a look-up has come to. -/
def Arrival.place? : Arrival → Option Location
  | .present loc (.file _) => some loc
  | .absent dir name => some (dir ++ [name])
  | _ => none

/-- The place that a file written to a path takes. -/
def place? (fs : FileSystem) (p : Path) : Option Location :=
  match fs.locate true p with
  | .ok arrival => arrival.place?
  | .error _ => none

/-- Nothing but a regular file lies at a location. -/
def Vacant (fs : FileSystem) (site : Location) : Prop :=
  ∀ entry, fs.entry? site = some entry → entry.isFile = true

theorem Vacant.ne_nil (h : fs.Vacant site) : site ≠ [] := by
  rintro rfl
  cases h .directory rfl

/-- A look-up tells what is there. -/
def Arrival.Stands (fs : FileSystem) : Arrival → Prop
  | .present loc (.file bytes) => fs.entry? loc = some (.file bytes)
  | .absent dir name => fs.entry? (dir ++ [name]) = none
  | _ => True

theorem stands_of_advance {followLast : Bool} {pieces : List String} {dir : Location}
    {arrival : Arrival} (h : fs.advance followLast dir pieces = .ok arrival) : arrival.Stands fs := by
  induction pieces generalizing dir with
  | nil => cases h; trivial
  | cons piece rest ih =>
    rcases piece_cases piece with hp | rfl | hp | ⟨fault,hp⟩
    · rw [advance_void hp] at h; exact ih h
    · rw [advance_up] at h; exact ih h
    · rw [advance_cons hp] at h
      cases he : fs.entry? (dir ++ [piece]) with
      | none =>
        simp only [he] at h
        split at h
        · cases h; exact he
        · cases h
      | some e =>
        cases e with
        | directory => simp only [he] at h; exact ih h
        | file bytes =>
          simp only [he] at h
          split at h
          · cases h; exact he
          · cases h
        | link target =>
          simp only [he] at h
          split at h
          · cases h; trivial
          · cases h; trivial
    · rw [advance_unfit hp] at h; cases h

theorem stands_of_locate {followLast : Bool} {arrival : Arrival}
    (h : fs.locate followLast p = .ok arrival) : arrival.Stands fs :=
  arrival_of_locate (fun _ _ _ => stands_of_advance) h

theorem place?_eq_some_iff : fs.place? p = some site ↔
    ∃ arrival, fs.locate true p = .ok arrival ∧ arrival.place? = some site := by
  unfold place?
  cases fs.locate true p with
  | error fault => simp
  | ok arrival => simp

theorem vacant_of_place? (h : fs.place? p = some site) : fs.Vacant site := by
  obtain ⟨arrival,hl,hplace⟩ := place?_eq_some_iff.mp h
  have hstands := stands_of_locate hl
  intro entry hentry
  cases arrival with
  | present loc found =>
    cases found with
    | file bytes =>
      cases hplace
      rw [show _ = _ from hstands] at hentry
      cases hentry
      rfl
    | directory | link target => cases hplace
  | absent dir name =>
    cases hplace
    rw [show _ = _ from hstands] at hentry
    cases hentry
  | link dir target rest => cases hplace

/-- What a look-up comes to once a file lies at a place. -/
def Arrival.replaced (site : Location) (bytes : List UInt8) (arrival : Arrival) : Arrival :=
  if arrival.place? = some site then .present site (.file bytes) else arrival

theorem Arrival.place?_replaced (arrival : Arrival) :
    (arrival.replaced site bytes).place? = arrival.place? := by
  unfold replaced
  split
  · rename_i hplace
    exact hplace.symm
  · rfl

/-- A look-up before and after a file was put at a place. -/
def Replaced (site : Location) (bytes : List UInt8) :
    Except FileFault Arrival → Except FileFault Arrival → Prop
  | .ok arrival, found => found = .ok (arrival.replaced site bytes)
  | .error _, found => ∃ fault, found = .error fault

theorem advance_put (hs : fs.Vacant site) {followLast : Bool} {pieces : List String}
    {dir : Location} : Replaced site bytes (fs.advance followLast dir pieces)
      ((fs.put site (.file bytes)).advance followLast dir pieces) := by
  induction pieces generalizing dir with
  | nil => rfl
  | cons piece rest ih =>
    rcases piece_cases piece with hp | rfl | hp | ⟨fault,hp⟩
    · rw [advance_void hp, advance_void hp]; exact ih
    · rw [advance_up, advance_up]; exact ih
    · rw [advance_cons hp, advance_cons hp, entry?_put hs.ne_nil]
      by_cases hloc : dir ++ [piece] = site
      · subst hloc
        rw [if_pos rfl]
        cases he : fs.entry? (dir ++ [piece]) with
        | none => by_cases hrest : rest = [] <;> simp [hrest, Replaced, Arrival.replaced, Arrival.place?]
        | some e =>
          cases e with
          | directory => cases hs _ he
          | link target => cases hs _ he
          | file old =>
            by_cases hrest : rest = [] <;> simp [hrest, Replaced, Arrival.replaced, Arrival.place?]
      · rw [if_neg hloc]
        cases he : fs.entry? (dir ++ [piece]) with
        | none =>
          by_cases hrest : rest = [] <;> simp [hrest, Replaced, Arrival.replaced, Arrival.place?, hloc]
        | some e =>
          cases e with
          | directory => exact ih
          | file old =>
            by_cases hrest : rest = [] <;> simp [hrest, Replaced, Arrival.replaced, Arrival.place?, hloc]
          | link target =>
            dsimp only
            split <;> rfl
    · rw [advance_unfit hp, advance_unfit hp]; exact ⟨_,rfl⟩

/-- A walk that has met no link is followed to where it has arrived. -/
theorem follow_eq {followLast : Bool} {budget : Nat} {pieces : List String} {dir : Location}
    (hl : ∀ site target rest, fs.advance followLast dir pieces ≠ .ok (.link site target rest)) :
    fs.follow followLast budget dir pieces = fs.advance followLast dir pieces := by
  rw [follow]
  split
  · rename_i ha
    exact absurd ha (hl _ _ _)
  · rfl

theorem advance_put_link (hs : fs.Vacant site) {followLast : Bool} {pieces rest : List String}
    {dir home : Location} {target : String} :
    (fs.put site (.file bytes)).advance followLast dir pieces = .ok (.link home target rest) ↔
      fs.advance followLast dir pieces = .ok (.link home target rest) := by
  have hput := @advance_put fs site bytes hs followLast pieces dir
  cases ha : fs.advance followLast dir pieces with
  | error fault =>
    rw [ha] at hput
    obtain ⟨fault',hput⟩ := hput
    simp [hput]
  | ok arrival =>
    rw [ha] at hput
    rw [show _ = _ from hput, Arrival.replaced]
    split
    · rename_i hplace
      constructor
      · rintro ⟨⟩
      · rintro ⟨⟩
        cases hplace
    · rfl

theorem follow_put (hs : fs.Vacant site) {followLast : Bool} {budget : Nat} {pieces : List String}
    {dir : Location} : Replaced site bytes (fs.follow followLast budget dir pieces)
      ((fs.put site (.file bytes)).follow followLast budget dir pieces) := by
  induction budget generalizing dir pieces with
  | zero =>
    by_cases hl : ∃ home target rest, fs.advance followLast dir pieces = .ok (.link home target rest)
    · obtain ⟨home,target,rest,hl⟩ := hl
      rw [follow, follow, hl, (advance_put_link hs).mpr hl]
      exact ⟨_,rfl⟩
    · simp only [not_exists] at hl
      rw [follow_eq hl, follow_eq fun home target rest h => hl _ _ _ ((advance_put_link hs).mp h)]
      exact advance_put hs
  | succ budget ih =>
    by_cases hl : ∃ home target rest, fs.advance followLast dir pieces = .ok (.link home target rest)
    · obtain ⟨home,target,rest,hl⟩ := hl
      rw [follow, follow, hl, (advance_put_link hs).mpr hl]
      exact ih
    · simp only [not_exists] at hl
      rw [follow_eq hl, follow_eq fun home target rest h => hl _ _ _ ((advance_put_link hs).mp h)]
      exact advance_put hs

theorem locate_put (hs : fs.Vacant site) {followLast : Bool} :
    Replaced site bytes (fs.locate followLast p)
      ((fs.put site (.file bytes)).locate followLast p) := by
  unfold locate
  split
  · exact ⟨_,rfl⟩
  · exact follow_put hs

/-- A file that could be written took a place, and nothing else has changed. -/
theorem write_eq_ok (h : fs.write p bytes = .ok after) :
    ∃ site, fs.place? p = some site ∧ after = fs.put site (.file bytes) := by
  unfold write at h
  unfold place?
  split at h
  · rename_i loc old hl
    cases h
    rw [hl]
    exact ⟨loc,rfl,rfl⟩
  · rename_i dir name hl
    cases h
    rw [hl]
    exact ⟨dir ++ [name],rfl,rfl⟩
  all_goals cases h

/-- A path that comes to the place of a written file finds this file. -/
theorem status_of_write (h : fs.write p bytes = .ok after) (hq : fs.place? q = fs.place? p) :
    ∃ site, after.status q = .ok (site,.file bytes) := by
  obtain ⟨site,hsite,rfl⟩ := write_eq_ok h
  have hput := @locate_put fs site bytes q (vacant_of_place? hsite) true
  obtain ⟨arrival,hl,hplace⟩ := place?_eq_some_iff.mp (hq.trans hsite)
  rw [hl] at hput
  have hfound : (fs.put site (.file bytes)).locate true q = .ok (.present site (.file bytes)) := by
    rw [show _ = _ from hput, Arrival.replaced, if_pos hplace]
  refine ⟨site,?_⟩
  unfold status
  rw [hfound]

/-- Writing a file moves no path to another place. -/
theorem place?_of_write (h : fs.write p bytes = .ok after) : after.place? q = fs.place? q := by
  obtain ⟨site,hsite,rfl⟩ := write_eq_ok h
  have hput := @locate_put fs site bytes q (vacant_of_place? hsite) true
  unfold place?
  cases hl : fs.locate true q with
  | error fault =>
    rw [hl] at hput
    obtain ⟨fault',hput⟩ := hput
    rw [hput]
  | ok arrival =>
    rw [hl] at hput
    rw [show _ = _ from hput]
    exact arrival.place?_replaced

/-- Two paths to which no file can be written at one and the same place. -/
def Apart (fs : FileSystem) (p q : Path) : Prop :=
  ∀ site, fs.place? p = some site → fs.place? q ≠ some site

theorem Apart.symm (h : fs.Apart p q) : fs.Apart q p := fun site hq hp => h site hp hq

theorem Apart.of_write {r : Path} (h : fs.Apart p q) (hw : fs.write r bytes = .ok after) :
    after.Apart p q := by
  unfold Apart
  rw [place?_of_write hw, place?_of_write hw]
  exact h

/-- A path that does not come to the place of a written file leads to what it led to. -/
theorem status_of_apart (h : fs.write p bytes = .ok after) (hq : fs.Apart p q)
    {found : Location × Entry} : after.status q = .ok found ↔ fs.status q = .ok found := by
  obtain ⟨site,hsite,rfl⟩ := write_eq_ok h
  have hput := @locate_put fs site bytes q (vacant_of_place? hsite) true
  have hne := hq site hsite
  unfold place? at hne
  unfold status
  cases hl : fs.locate true q with
  | error fault =>
    rw [hl] at hput
    obtain ⟨fault',hput⟩ := hput
    simp [hput]
  | ok arrival =>
    rw [hl] at hput hne
    rw [show _ = _ from hput, Arrival.replaced, if_neg hne]

theorem exists?_eq_true_iff : fs.exists? p = .ok true ↔ ∃ found, fs.status p = .ok found :=
  test_eq_true_iff.trans ⟨fun ⟨_,_,h,_⟩ => ⟨_,h⟩,fun ⟨⟨_,_⟩,h⟩ => ⟨_,_,h,rfl⟩⟩

end WebAtlas.FileSystem
