import WebAtlas.FileSystem.RealPath
import WebAtlas.Proofs.FileSystem.WellFormed
import WebAtlas.Source.Text

/-! # File systems that read alike

Two file systems may hold the same entries in different orders, and files whose bytes differ but are
read as the same text. A look-up in one of them finds what it finds in the other, and what a path is
resolved to depends on no bytes at all.
-/
namespace WebAtlas

/-- Bytes that are read as one text, with replacement and strictly. -/
def Source.SameText (bytes bytes' : List UInt8) : Prop :=
  textOf bytes = textOf bytes' ∧ (Utf8.decodeStrict? bytes).map Utf8.unifyLineEnds =
    (Utf8.decodeStrict? bytes').map Utf8.unifyLineEnds

namespace FileSystem

/-- Two findings are the same, or files at one location that are read as one text. -/
def Agree {α : Type} (found : Location → Entry → α) (x y : α) : Prop :=
  x = y ∨ ∃ loc bytes bytes', Source.SameText bytes bytes' ∧
    x = found loc (.file bytes) ∧ y = found loc (.file bytes')

structure Alike (fs fs' : FileSystem) : Prop where
  wellFormed : fs.WellFormed
  wellFormed' : fs'.WellFormed
  home : fs.workingDirectory = fs'.workingDirectory
  entries : ∀ loc, Agree (fun _ => some) (fs.entry? loc) (fs'.entry? loc)
  links : fs.linkCount = fs'.linkCount

theorem Agree.symm {α : Type} {found : Location → Entry → α} {x y : α} (h : Agree found x y) :
    Agree found y x := by
  rcases h with heq | ⟨loc,bytes,bytes',htext,hx,hy⟩
  · exact .inl heq.symm
  · exact .inr ⟨loc,bytes',bytes,⟨htext.1.symm,htext.2.symm⟩,hy,hx⟩

namespace Alike
variable {fs fs' : FileSystem} {followLast : Bool} {p : Path}

theorem symm (h : Alike fs fs') : Alike fs' fs :=
  ⟨h.wellFormed',h.wellFormed,h.home.symm,fun loc => (h.entries loc).symm,h.links.symm⟩

variable (h : Alike fs fs')
include h

theorem advance (dir : Location) (pieces : List String) :
    Agree (fun loc entry => .ok (.present loc entry)) (fs.advance followLast dir pieces)
      (fs'.advance followLast dir pieces) := by
  induction pieces generalizing dir with
  | nil => exact .inl rfl
  | cons piece rest ih =>
    rcases piece_cases piece with hp | rfl | hp | ⟨fault,hp⟩
    · rw [advance_void hp, advance_void hp]
      exact ih dir
    · rw [advance_up, advance_up]
      exact ih dir.dropLast
    · rw [advance_cons hp, advance_cons hp]
      rcases h.entries (dir ++ [piece]) with heq | ⟨_,bytes,bytes',htext,hfile,hfile'⟩
      · rw [heq]
        rcases fs'.entry? (dir ++ [piece]) with _ | _ | bytes | target
        · exact .inl rfl
        · exact ih (dir ++ [piece])
        · exact .inl rfl
        · exact .inl rfl
      · rw [hfile, hfile']
        by_cases hrest : rest = []
        · exact .inr ⟨dir ++ [piece],bytes,bytes',htext,if_pos hrest,if_pos hrest⟩
        · exact .inl ((if_neg hrest).trans (if_neg hrest).symm)
    · rw [advance_unfit hp, advance_unfit hp]
      exact .inl rfl

theorem follow (budget : Nat) (dir : Location) (pieces : List String) :
    Agree (fun loc entry => .ok (.present loc entry)) (fs.follow followLast budget dir pieces)
      (fs'.follow followLast budget dir pieces) := by
  induction budget generalizing dir pieces with
  | zero =>
    rw [FileSystem.follow, FileSystem.follow]
    rcases h.advance dir pieces with heq | ⟨loc,bytes,bytes',htext,hx,hy⟩
    · rw [heq]
      exact .inl rfl
    · rw [hx, hy]
      exact .inr ⟨loc,bytes,bytes',htext,rfl,rfl⟩
  | succ budget ih =>
    rw [FileSystem.follow, FileSystem.follow]
    rcases h.advance dir pieces with heq | ⟨loc,bytes,bytes',htext,hx,hy⟩
    · rw [heq]
      split
      · exact ih _ _
      · exact .inl rfl
    · rw [hx, hy]
      exact .inr ⟨loc,bytes,bytes',htext,rfl,rfl⟩

theorem locate (p : Path) : Agree (fun loc entry => .ok (.present loc entry)) (fs.locate followLast p)
    (fs'.locate followLast p) := by
  have horigin : fs.origin p = fs'.origin p := by rw [origin, origin, h.home]
  unfold FileSystem.locate
  split
  · exact .inl rfl
  · rw [horigin]
    exact h.follow linkLimit _ p.segments

theorem status (p : Path) :
    Agree (fun loc entry => .ok (loc,entry)) (fs.status p) (fs'.status p) := by
  unfold FileSystem.status
  rcases h.locate p with heq | ⟨loc,bytes,bytes',htext,hx,hy⟩
  · exact .inl (by rw [heq])
  · exact .inr ⟨loc,bytes,bytes',htext,by rw [hx],by rw [hy]⟩

theorem linkTarget? (p : Path) : fs.linkTarget? p = fs'.linkTarget? p := by
  unfold FileSystem.linkTarget?
  rcases h.locate p with heq | ⟨loc,bytes,bytes',-,hx,hy⟩
  · rw [heq]
  · rw [hx, hy]

theorem test {accepts : Entry → Bool}
    (ha : ∀ bytes bytes', accepts (.file bytes) = accepts (.file bytes')) (p : Path) :
    fs.test accepts p = fs'.test accepts p := by
  unfold FileSystem.test
  rcases h.status p with heq | ⟨loc,bytes,bytes',-,hx,hy⟩
  · rw [heq]
  · rw [hx, hy]
    exact congrArg Except.ok (ha bytes bytes')

theorem exists? (p : Path) : fs.exists? p = fs'.exists? p := h.test (fun _ _ => rfl) p

theorem isFile? (p : Path) : fs.isFile? p = fs'.isFile? p := h.test (fun _ _ => rfl) p

theorem isDirectory? (p : Path) : fs.isDirectory? p = fs'.isDirectory? p := h.test (fun _ _ => rfl) p

theorem hasFile (p : Path) : fs.hasFile p = fs'.hasFile p := by
  unfold FileSystem.hasFile
  rcases h.status p with heq | ⟨loc,bytes,bytes',-,hx,hy⟩
  · rw [heq]
  · rw [hx, hy]
    rfl

/-- What reading a file gives is the same fault or the same text. -/
theorem read (p : Path) : fs.read p = fs'.read p ∨ ∃ bytes bytes', Source.SameText bytes bytes' ∧
    fs.read p = .ok bytes ∧ fs'.read p = .ok bytes' := by
  unfold FileSystem.read
  rcases h.status p with heq | ⟨loc,bytes,bytes',htext,hx,hy⟩
  · exact .inl (by rw [heq])
  · exact .inr ⟨bytes,bytes',htext,by rw [hx],by rw [hy]⟩

theorem text (p : Path) : Source.read? fs p = Source.read? fs' p := by
  unfold Source.read?
  rcases h.read p with heq | ⟨bytes,bytes',htext,hx,hy⟩
  · rw [heq]
  · rw [hx, hy]
    exact congrArg some htext.1

theorem realAlong {enter enter' : Path → Path → String → Except Path Path}
    (henter : ∀ dir link target, enter dir link target = enter' dir link target) (p : Path)
    (pieces : List String) : fs.realAlong enter p pieces = fs'.realAlong enter' p pieces := by
  obtain rfl : enter = enter' := funext fun dir => funext fun link => funext (henter dir link)
  induction pieces generalizing p with
  | nil => rfl
  | cons piece rest ih => simp only [FileSystem.realAlong, h.linkTarget?, ih]

theorem realTarget (depth : Nat) (pending : List Path) (dir link : Path) (target : String) :
    fs.realTarget depth pending dir link target = fs'.realTarget depth pending dir link target := by
  induction depth generalizing pending dir link target with
  | zero => rfl
  | succ depth ih =>
    rw [FileSystem.realTarget, FileSystem.realTarget, h.realAlong (ih (link :: pending))]

theorem realPath (p : Path) : fs.realPath p = fs'.realPath p := by
  unfold FileSystem.realPath linkDepth
  rw [h.links, h.home, h.realAlong (h.realTarget _ _)]

theorem resolve (p : Path) : fs.resolve p = fs'.resolve p := by
  unfold FileSystem.resolve
  rw [h.realPath]
  split
  · rfl
  rcases h.status (fs'.realPath p) with heq | ⟨loc,bytes,bytes',-,hx,hy⟩
  · rw [heq]
  · rw [hx, hy]

end Alike
end FileSystem
end WebAtlas
