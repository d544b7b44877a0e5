import WebAtlas.Proofs.FileSystem.Writing

/-! # What is only added

Making directories, or a file where there was none, keeps every entry. What a path led to it still
leads to.
-/
namespace WebAtlas.FileSystem
variable {fs after last : FileSystem} {p : Path}

/-- Every entry of a file system is one of another. -/
structure Extends (fs after : FileSystem) : Prop where
  workingDirectory : after.workingDirectory = fs.workingDirectory
  entry : ∀ loc e, fs.entry? loc = some e → after.entry? loc = some e

theorem Extends.refl (fs : FileSystem) : fs.Extends fs := ⟨rfl,fun _ _ h => h⟩

theorem Extends.trans (h : fs.Extends after) (h' : after.Extends last) : fs.Extends last :=
  ⟨h'.workingDirectory.trans h.workingDirectory,fun loc e he => h'.entry loc e (h.entry loc e he)⟩

theorem Extends.leads (h : fs.Extends after) {dir loc : Location} {pieces : List String} {entry : Entry}
    {links : List Location} (hl : fs.Leads dir pieces loc entry links) :
    after.Leads dir pieces loc entry links := by
  induction hl with
  | here dir => exact .here dir
  | void hp _ ih => exact .void hp ih
  | up _ ih => exact .up ih
  | enter hp he _ ih => exact .enter hp (h.entry _ _ he) ih
  | file hp he => exact .file hp (h.entry _ _ he)
  | link hp he _ ih => exact .link hp (h.entry _ _ he) ih

theorem Extends.status (h : fs.Extends after) {found : Location × Entry}
    (hs : fs.status p = .ok found) : after.status p = .ok found := by
  obtain ⟨hlength,links,hlinks,hl⟩ := status_eq_ok_iff.mp hs
  have horigin : after.origin p = fs.origin p := by
    unfold origin
    rw [h.workingDirectory]
  exact status_eq_ok_iff.mpr ⟨hlength,links,hlinks,horigin ▸ h.leads hl⟩

theorem extends_put {site : Location} {entry : Entry} (h : fs.entry? site = none) :
    fs.Extends (fs.put site entry) := by
  refine ⟨rfl,fun loc e he => ?_⟩
  have hsite : site ≠ [] := by
    rintro rfl
    cases h
  have hloc : loc ≠ site := by
    rintro rfl
    rw [h] at he
    cases he
  rw [entry?_put hsite, if_neg hloc, he]

theorem extends_create {entry : Entry} (h : fs.create p entry = .ok after) : fs.Extends after := by
  obtain ⟨dir,name,hl,rfl⟩ := create_eq_ok h
  exact extends_put (stands_of_locate hl)

theorem extends_makeDirectories : fs.Extends (fs.makeDirectories p).1 :=
  makeDirectoriesUpTo_keeps (fun _ _ _ h hc => h.trans (extends_create hc)) (.refl fs)

/-- A file that is written where nothing was is only added. -/
theorem extends_write {bytes : List UInt8} (h : fs.write p bytes = .ok after)
    (hp : ∀ loc old, fs.locate true p ≠ .ok (.present loc (.file old))) : fs.Extends after := by
  unfold write at h
  split at h
  · rename_i loc old hl
    exact absurd hl (hp loc old)
  · rename_i dir name hl
    cases h
    exact extends_put (stands_of_locate hl)
  all_goals cases h

end WebAtlas.FileSystem
