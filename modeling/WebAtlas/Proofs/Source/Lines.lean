import WebAtlas.Proofs.Component.Directive
import WebAtlas.Proofs.Route.Method
import WebAtlas.Proofs.Text.Decoding
import WebAtlas.Route.Access
import WebAtlas.Source.Text

/-! # What the lines of a file show

The text of a file is searched for exported methods, for cues of an access tier and for a client
directive. What some lines show by themselves they show in every file that contains them, whatever
bytes the other lines consist of.
-/
namespace WebAtlas
open Text
variable {m : HttpMethod} {text whole : String}

/-- How much a tier asks of a caller. -/
def AccessTier.rank : AccessTier → Nat
  | .anyone => 0
  | .signedIn => 1
  | .admin => 2

theorem AccessTier.rank_infer (text : String) : (infer text).rank =
    if containsAny adminCues text then 2 else if containsAny signedInCues text then 1 else 0 := by
  unfold infer
  split
  · rfl
  · split <;> rfl

section OnLines
variable (h : OnLines text.toList whole.toList)
include h

theorem Text.OnLines.mem_detect (hm : m ∈ HttpMethod.detect text) : m ∈ HttpMethod.detect whole := by
  obtain ⟨found,hspelled,hin⟩ := HttpMethod.mem_detect_iff.mp hm
  exact HttpMethod.mem_detect_iff.mpr ⟨found,hspelled,hin.trans h.isInfix⟩

theorem Text.OnLines.rank_le : (AccessTier.infer text).rank ≤ (AccessTier.infer whole).rank := by
  rw [AccessTier.rank_infer, AccessTier.rank_infer]
  by_cases hadmin : Text.containsAny AccessTier.adminCues text = true
  · rw [if_pos hadmin, if_pos (h.containsAny hadmin)]
  · rw [if_neg hadmin]
    by_cases hsigned : Text.containsAny AccessTier.signedInCues text = true
    · rw [if_pos hsigned, if_pos (h.containsAny hsigned)]
      split <;> decide
    · rw [if_neg hsigned]
      exact Nat.zero_le _

theorem Text.OnLines.interactive (htext : ExecutionContext.infer text = .interactive) :
    ExecutionContext.infer whole = .interactive := by
  have hdirective : ExecutionContext.hasDirective true text.toList = true := by
    by_contra hnone
    rw [ExecutionContext.infer, if_neg hnone] at htext
    cases htext
  obtain ⟨front,body,back,hwhole,hbody⟩ := h
  have hline : ExecutionContext.hasDirective true body = true := by
    rcases hbody with hbody | hbody
    · rwa [← hbody]
    · rw [hbody, ExecutionContext.hasDirective_append_lineFeed] at hdirective
      simpa [ExecutionContext.hasDirective] using hdirective
  rw [ExecutionContext.infer, if_pos]
  rw [hwhole, ExecutionContext.hasDirective_append_lineFeed,
    ExecutionContext.hasDirective_append_lineFeed, hline]
  simp

end OnLines

namespace Source

theorem textOf_onLines (front body back : List UInt8) :
    OnLines (textOf body).toList (textOf (front ++ 0x0A :: (body ++ 0x0A :: back))).toList := by
  open Utf8 in
  obtain ⟨before,hwhole,-⟩ :=
    unifyLineEnds_append_lineFeed (decode front) (decode (body ++ 0x0A :: back))
  obtain ⟨lines,hrest,hbody⟩ := unifyLineEnds_append_lineFeed (decode body) (decode back)
  rw [← decode_append_lineFeed] at hwhole hrest
  simp only [textOf, String.toList_ofList]
  exact ⟨before,lines,unifyLineEnds (decode back),by rw [hwhole, hrest],hbody⟩

/-- A file that contains the lines of another one shows all that the other one shows: its methods, an
access tier that is no lower, and its directive. -/
theorem lines_show {fs fs' : FileSystem} {file file' : Path} {front body back : List UInt8}
    (h : fs.read file = .ok body)
    (h' : fs'.read file' = .ok (front ++ 0x0A :: (body ++ 0x0A :: back))) :
    ∃ text whole, read? fs file = some text ∧ read? fs' file' = some whole ∧
      (∀ m ∈ HttpMethod.detect text, m ∈ HttpMethod.detect whole) ∧
      (AccessTier.infer text).rank ≤ (AccessTier.infer whole).rank ∧
      (ExecutionContext.infer text = .interactive → ExecutionContext.infer whole = .interactive) := by
  have hlines := textOf_onLines front body back
  exact ⟨_,_,by rw [read?, h],by rw [read?, h'],fun _ => hlines.mem_detect,hlines.rank_le,
    hlines.interactive⟩

def handler : List UInt8 :=
  "'use client'\nexport const GET = isAdmin".toList.map fun c => UInt8.ofNat c.toNat

/-- A handler by itself, and between a cut off character and a carriage return. -/
def embedded : FileSystem where
  entries := [(["alone.ts"],.file handler),
    (["among.ts"],.file ([0xE2,0x82] ++ 0x0A :: (handler ++ 0x0A :: [0x0D,0xF0])))]
  workingDirectory := []

/-- What the handler shows is found in the larger file. -/
theorem embedded_shows : ∃ text whole,
    read? embedded (Path.parse "/alone.ts") = some text ∧
    read? embedded (Path.parse "/among.ts") = some whole ∧
    text = "'use client'\nexport const GET = isAdmin" ∧
    whole = "\uFFFD\n'use client'\nexport const GET = isAdmin\n\n\uFFFD" ∧
    HttpMethod.get ∈ HttpMethod.detect whole ∧ 2 ≤ (AccessTier.infer whole).rank ∧
    ExecutionContext.infer whole = .interactive := by
  have halone : embedded.read (Path.parse "/alone.ts") = .ok handler := rfl
  have hamong : embedded.read (Path.parse "/among.ts") =
      .ok ([0xE2,0x82] ++ 0x0A :: (handler ++ 0x0A :: [0x0D,0xF0])) := rfl
  obtain ⟨text,whole,htext,hwhole,hmethods,htier,hcontext⟩ := lines_show halone hamong
  obtain rfl : "'use client'\nexport const GET = isAdmin" = text := by
    rw [read?, halone] at htext
    exact (by decide : _ = textOf handler).trans (Option.some_inj.mp htext)
  refine ⟨_,whole,htext,hwhole,rfl,?_,hmethods _ (by decide),htier,hcontext (by decide)⟩
  rw [read?, hamong] at hwhole
  rw [← Option.some_inj.mp hwhole]
  decide

end Source
end WebAtlas
