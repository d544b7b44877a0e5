import WebAtlas.FileSystem.Edit
import WebAtlas.Proofs.FileSystem.Leads
import Mathlib.Data.List.Nodup

/-! # Well-formed file systems

No two entries share a location, and every location ends in a name. Every change to a file system
keeps it so, and then a listing shows each entry of its directory once.
-/
namespace WebAtlas.FileSystem
variable {fs : FileSystem}

structure WellFormed (fs : FileSystem) : Prop where
  distinct : (fs.entries.map (·.1)).Nodup
  named : ∀ e ∈ fs.entries, ∃ dir name, e.1 = dir ++ [name] ∧ Names name

theorem wellFormed_of_getLast? (hd : (fs.entries.map (·.1)).Nodup)
    (hn : ∀ e ∈ fs.entries, e.1.getLast?.any (Names ·) = true) : fs.WellFormed := by
  refine ⟨hd,fun e he => ?_⟩
  obtain ⟨name,hlast,hname⟩ := (Option.any_eq_true _ _).mp (hn e he)
  exact ⟨e.1.dropLast,name,(List.dropLast_append_getLast? name hlast).symm,of_decide_eq_true hname⟩

theorem WellFormed.entry?_of_mem (h : fs.WellFormed) {loc : Location} {entry : Entry}
    (hm : (loc,entry) ∈ fs.entries) : fs.entry? loc = some entry := by
  apply entry?_eq_some_of_mem hm
  · intro e he heq
    rw [List.inj_on_of_nodup_map h.distinct he hm heq]
  · obtain ⟨dir,name,heq,-⟩ := h.named _ hm
    intro hnil
    simp [hnil] at heq

/-- An entry is listed in the directory above its location, under the last name of it. -/
theorem listed_eq_some_iff {dir loc : Location} {entry : Entry} {listed : String × Entry} :
    (if loc.dropLast = dir then loc.getLast?.map (·,entry) else none) = some listed ↔
      loc = dir ++ [listed.1] ∧ entry = listed.2 := by
  constructor
  · intro h
    split at h
    · rename_i hdir
      obtain ⟨last,hlast,rfl⟩ := Option.map_eq_some_iff.mp h
      exact ⟨by rw [← hdir, List.dropLast_append_getLast? _ hlast],rfl⟩
    · cases h
  · rintro ⟨rfl,rfl⟩
    simp

theorem mem_listing_iff {dir : Location} {name : String} {entry : Entry} :
    (name,entry) ∈ fs.listing dir ↔ (dir ++ [name],entry) ∈ fs.entries := by
  unfold listing
  rw [List.mem_filterMap]
  constructor
  · rintro ⟨⟨loc,e⟩,hm,h⟩
    obtain ⟨rfl,rfl⟩ := listed_eq_some_iff.mp h
    exact hm
  · intro hm
    exact ⟨_,hm,listed_eq_some_iff.mpr ⟨rfl,rfl⟩⟩

theorem WellFormed.listing_nodup (h : fs.WellFormed) (dir : Location) :
    ((fs.listing dir).map (·.1)).Nodup := by
  refine List.pairwise_map.mpr ((List.pairwise_map.mp h.distinct).filterMap _ ?_)
  rintro ⟨loc,e⟩ ⟨loc',e'⟩ hne listed hl listed' hl' heq
  apply hne
  rw [(listed_eq_some_iff.mp hl).1, (listed_eq_some_iff.mp hl').1, heq]

theorem WellFormed.listed (h : fs.WellFormed) {dir : Location} {name : String} {entry : Entry}
    (hm : (name,entry) ∈ fs.listing dir) : Names name ∧ fs.entry? (dir ++ [name]) = some entry := by
  have hentry := mem_listing_iff.mp hm
  obtain ⟨site,last,heq,hn⟩ := h.named _ hentry
  obtain ⟨-,hlast⟩ := List.append_inj' heq rfl
  obtain ⟨rfl,-⟩ := List.cons.inj hlast
  exact ⟨hn,h.entry?_of_mem hentry⟩

theorem WellFormed.put (h : fs.WellFormed) {dir : Location} {name : String} (hn : Names name)
    (entry : Entry) : (fs.put (dir ++ [name]) entry).WellFormed := by
  constructor
  · simp only [FileSystem.put, List.map_append, List.map_singleton, List.nodup_append]
    refine ⟨(List.filter_sublist.map _).nodup h.distinct,List.nodup_singleton _,?_⟩
    intro a ha b hb
    obtain ⟨e,he,rfl⟩ := List.mem_map.mp ha
    rw [List.mem_singleton.mp hb]
    simpa using (List.mem_filter.mp he).2
  · intro e he
    rcases List.mem_append.mp he with he | he
    · exact h.named e (List.mem_filter.mp he).1
    · exact ⟨dir,name,by rw [List.mem_singleton.mp he],hn⟩

theorem WellFormed.erase (h : fs.WellFormed) (loc : Location) : (fs.erase loc).WellFormed :=
  ⟨(List.filter_sublist.map _).nodup h.distinct,fun e he => h.named e (List.mem_filter.mp he).1⟩

/-- What a look-up ends at has a proper name, unless it is a directory. -/
def Arrival.Proper : Arrival → Prop
  | .present loc entry => entry = .directory ∨ ∃ dir name, loc = dir ++ [name] ∧ Names name
  | .absent _ name => Names name
  | .link _ _ _ => True

theorem proper_of_advance {followLast : Bool} {pieces : List String} {dir : Location}
    {arrival : Arrival} (h : fs.advance followLast dir pieces = .ok arrival) : arrival.Proper := by
  induction pieces generalizing dir with
  | nil => cases h; exact .inl rfl
  | cons piece rest ih =>
    rcases piece_cases piece with hp | rfl | hp | ⟨fault,hp⟩
    · rw [advance_void hp] at h; exact ih h
    · rw [advance_up] at h; exact ih h
    · rw [advance_cons hp] at h
      cases he : fs.entry? (dir ++ [piece]) with
      | none =>
        simp only [he] at h
        split at h
        · cases h; exact hp
        · cases h
      | some e =>
        cases e with
        | directory => simp only [he] at h; exact ih h
        | file bytes =>
          simp only [he] at h
          split at h
          · cases h; exact .inr ⟨dir,piece,rfl,hp⟩
          · cases h
        | link target =>
          simp only [he] at h
          split at h
          · cases h; exact .inr ⟨dir,piece,rfl,hp⟩
          · cases h; trivial
    · rw [advance_unfit hp] at h; cases h

/-- What holds of everything that walks arrive at holds of what a look-up ends at. -/
theorem arrival_of_follow {P : Arrival → Prop} {followLast : Bool} {budget : Nat}
    {pieces : List String} {dir : Location} {arrival : Arrival}
    (hP : ∀ dir pieces arrival, fs.advance followLast dir pieces = .ok arrival → P arrival)
    (h : fs.follow followLast budget dir pieces = .ok arrival) : P arrival := by
  induction budget generalizing dir pieces with
  | zero =>
    rw [follow] at h
    split at h
    · cases h
    · exact hP _ _ _ h
  | succ budget ih =>
    rw [follow] at h
    split at h
    · exact ih h
    · exact hP _ _ _ h

theorem arrival_of_locate {P : Arrival → Prop} {followLast : Bool} {p : Path} {arrival : Arrival}
    (hP : ∀ dir pieces arrival, fs.advance followLast dir pieces = .ok arrival → P arrival)
    (h : fs.locate followLast p = .ok arrival) : P arrival := by
  unfold locate at h
  split at h
  · cases h
  · exact arrival_of_follow hP h

theorem proper_of_locate {followLast : Bool} {p : Path} {arrival : Arrival}
    (h : fs.locate followLast p = .ok arrival) : arrival.Proper :=
  arrival_of_locate (fun _ _ _ => proper_of_advance) h

/-- An entry that could be created was put at a free name. -/
theorem create_eq_ok {p : Path} {entry : Entry} {after : FileSystem}
    (h : fs.create p entry = .ok after) : ∃ dir name,
      fs.locate false p = .ok (.absent dir name) ∧ after = fs.put (dir ++ [name]) entry := by
  unfold FileSystem.create at h
  split at h
  · cases h
  split at h
  · cases hl : fs.locate true p <;> simp [hl, Except.bind] at h
  split at h
  · rename_i dir name hl
    cases h
    exact ⟨dir,name,hl,rfl⟩
  all_goals cases h

theorem WellFormed.create (h : fs.WellFormed) {p : Path} {entry : Entry} {after : FileSystem}
    (hc : fs.create p entry = .ok after) : after.WellFormed := by
  obtain ⟨dir,name,hl,rfl⟩ := create_eq_ok hc
  exact h.put (proper_of_locate hl) entry

theorem WellFormed.write (h : fs.WellFormed) {p : Path} {bytes : List UInt8} {after : FileSystem}
    (hw : fs.write p bytes = .ok after) : after.WellFormed := by
  unfold FileSystem.write at hw
  split at hw
  · rename_i loc old hl
    obtain hd | ⟨dir,name,rfl,hn⟩ := proper_of_locate hl
    · cases hd
    · cases hw
      exact h.put hn _
  · rename_i dir name hl
    cases hw
    exact h.put (proper_of_locate hl) _
  all_goals cases hw

theorem WellFormed.remove (h : fs.WellFormed) {p : Path} {after : FileSystem}
    (hr : fs.remove p = .ok after) : after.WellFormed := by
  unfold FileSystem.remove at hr
  split at hr
  · cases hr
    exact h.erase _
  all_goals cases hr

/-- What the creation of each directory keeps is kept when several are made. -/
theorem makeDirectoriesUpTo_keeps {P : FileSystem → Prop} {depth : Nat} {p : Path}
    (hP : ∀ before after q, P before → before.create q .directory = .ok after → P after) (h : P fs) :
    P (makeDirectoriesUpTo depth fs p).1 := by
  induction depth generalizing p with
  | zero =>
    rw [makeDirectoriesUpTo]
    split
    · rename_i made hc; exact hP _ _ _ h hc
    · exact h
    · exact h
  | succ depth ih =>
    rw [makeDirectoriesUpTo]
    split
    · rename_i made hc; exact hP _ _ _ h hc
    · have habove := @ih p.parent
      split
      · rename_i made e hm; rwa [hm] at habove
      · rename_i made hm
        rw [hm] at habove
        split
        · rename_i whole hc; exact hP _ _ _ habove hc
        · exact habove
        · exact habove
    · exact h

theorem WellFormed.makeDirectories {p : Path} (h : fs.WellFormed) :
    (fs.makeDirectories p).1.WellFormed :=
  makeDirectoriesUpTo_keeps (fun _ _ _ hw hc => hw.create hc) h

end WebAtlas.FileSystem
