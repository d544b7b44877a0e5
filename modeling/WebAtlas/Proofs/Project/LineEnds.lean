import WebAtlas.Proofs.Project.Alike
import WebAtlas.Proofs.Project.Dates
import WebAtlas.Proofs.Text.LineEnds

/-! # Line ends of project files

Some line feeds of some files of a project may be written with a carriage return before them. Every
file is read as text with unified line ends, so an analysis cannot tell.
-/
namespace WebAtlas

def Entry.withReturns (chosen : Nat → Bool) : Entry → Entry
  | .file bytes => .file (Utf8.withReturns chosen bytes)
  | entry => entry

namespace FileSystem

/-- Puts carriage returns before line feeds, at the places chosen in each file. -/
def withReturns (fs : FileSystem) (chosen : Location → Nat → Bool) : FileSystem :=
  { fs with entries := fs.entries.map fun e => (e.1,e.2.withReturns (chosen e.1)) }

variable {fs : FileSystem} (chosen : Location → Nat → Bool)

theorem lookup_map (alter : Location → Entry → Entry) (entries : List (Location × Entry))
    (loc : Location) : (entries.map fun e => (e.1,alter e.1 e.2)).lookup loc =
      (entries.lookup loc).map (alter loc) := by
  induction entries with
  | nil => rfl
  | cons e entries ih =>
    obtain ⟨site,entry⟩ := e
    rw [List.map_cons, List.lookup_cons, List.lookup_cons, ih]
    by_cases hsite : loc = site
    · subst hsite
      simp
    · simp [beq_eq_false_iff_ne.mpr hsite]

theorem entry?_withReturns (loc : Location) :
    entry? (fs.withReturns chosen) loc = (fs.entry? loc).map (Entry.withReturns (chosen loc)) := by
  unfold entry?
  split
  · rfl
  · exact lookup_map (fun loc => Entry.withReturns (chosen loc)) fs.entries loc

theorem WellFormed.withReturns (hfs : fs.WellFormed) : (fs.withReturns chosen).WellFormed := by
  constructor
  · simpa [FileSystem.withReturns, Function.comp_def] using hfs.distinct
  · intro e he
    obtain ⟨e',he',rfl⟩ := List.mem_map.mp he
    exact hfs.named e' he'

/-- Files without carriage returns read alike when some are put before line feeds. -/
theorem alike_withReturns (hfs : fs.WellFormed)
    (hno : ∀ loc bytes n, (loc,.file bytes) ∈ fs.entries → chosen loc n = true → 0x0D ∉ bytes) :
    Alike fs (fs.withReturns chosen) where
  wellFormed := hfs
  wellFormed' := hfs.withReturns chosen
  home := rfl
  entries loc := by
    rw [entry?_withReturns]
    cases hentry : fs.entry? loc with
    | none => exact .inl rfl
    | some entry =>
      cases entry with
      | directory | link target => exact .inl rfl
      | file bytes =>
        have hl : loc ≠ [] := by
          rintro rfl
          cases hentry
        by_cases hchosen : ∃ n, chosen loc n = true
        · obtain ⟨n,hn⟩ := hchosen
          have hreturned := Utf8.withReturns_returned (chosen loc) bytes
          have htext := hreturned.sameText (hno loc bytes n (mem_entries_of_eq hentry hl) hn)
          exact .inr ⟨loc,bytes,_,htext,rfl,rfl⟩
        · have hnone : ∀ n, chosen loc n = false := fun n =>
            Bool.not_eq_true _ ▸ fun hn => hchosen ⟨n,hn⟩
          refine .inl (congrArg some ?_)
          rw [Entry.withReturns, Utf8.withReturns_of_none hnone]
  links := by
    have hlink : ∀ e : Location × Entry, (e.2.withReturns (chosen e.1)).isLink = e.2.isLink := by
      rintro ⟨loc,_ | bytes | target⟩ <;> rfl
    simp [linkCount, FileSystem.withReturns, List.countP_map, Function.comp_def, hlink]

end FileSystem

namespace Analysis
open FileSystem

/-- Carriage returns put before any line feeds of any files that have none change nothing in the
analysis of a project. -/
theorem returns_unseen {fs : FileSystem} (hfs : fs.WellFormed) (chosen : Location → Nat → Bool)
    (hno : ∀ loc bytes n, (loc,.file bytes) ∈ fs.entries → chosen loc n = true → 0x0D ∉ bytes)
    (room : Nat) (settings : Settings) (options : Options) (stamp stamp' : String)
    (path : Option String) :
    (ofPath (fs.withReturns chosen) room settings options stamp' path).outcome.1.map (dated "") =
      (ofPath fs room settings options stamp path).outcome.1.map (dated "") := by
  rw [ofPath_dated, ofPath_dated, ofPath_alike (alike_withReturns chosen hfs hno)]

/-- A project with a component in which line feeds cut two characters off. -/
def torn : FileSystem where
  entries := [(["p"],.directory), (["p","components"],.directory),
    (["p","components","Button.tsx"],.file [0xE2,0x82,0x0A,0x78,0xF0,0x0A])]
  workingDirectory := []

/-- The second line feed gets a carriage return, right behind the first byte of a character. -/
theorem returns_unseen_torn :
    (torn.withReturns fun _ n => n == 5).read (Path.parse "/p/components/Button.tsx") =
      .ok [0xE2,0x82,0x0A,0x78,0xF0,0x0D,0x0A] ∧
    ∀ room stamp stamp', (ofPath (torn.withReturns fun _ n => n == 5) room {} {} stamp' (some "/p")
        ).outcome.1.map (dated "") =
      (ofPath torn room {} {} stamp (some "/p")).outcome.1.map (dated "") := by
  have hfs : torn.WellFormed := wellFormed_of_getLast? (by decide) (by decide)
  have hno : ∀ loc bytes n, (loc,.file bytes) ∈ torn.entries → (n == 5) = true → 0x0D ∉ bytes := by
    intro loc bytes n hm _
    simp only [torn, List.mem_cons, List.not_mem_nil, or_false, Prod.mk.injEq, reduceCtorEq, and_false,
      false_or, Entry.file.injEq] at hm
    rw [hm.2]
    decide
  exact ⟨rfl,fun room stamp stamp' => returns_unseen hfs _ hno room {} {} stamp stamp' _⟩

end Analysis
end WebAtlas
