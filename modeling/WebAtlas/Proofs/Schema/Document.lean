import Mathlib.Data.List.Basic
import WebAtlas.Proofs.Schema.Item

/-! # Schema texts

A text of entity blocks and foreign blocks is read back as its entities, each with the fields of its
body, and a field is a relation exactly when its type is the name of some entity of the text.
-/
namespace WebAtlas.Schema
open Text
variable {keywords : List String}

/-- The items of a body, each but the first with the line end or semicolon before it. -/
structure Body where
  first : Item
  others : List (Char × Item)

namespace Body

def text (b : Body) : List Char := b.first.text ++ b.others.flatMap fun p => p.1 :: p.2.text

def items (b : Body) : List Item := b.first :: b.others.map (·.2)

theorem text_nil (first : Item) : text ⟨first,[]⟩ = first.text := List.append_nil _

theorem text_cons (first item : Item) (separator : Char) (others : List (Char × Item)) :
    text ⟨first,(separator,item) :: others⟩ = first.text ++ separator :: text ⟨item,others⟩ := by
  simp [text]

@[mk_iff]
structure WellFormed (b : Body) : Prop where
  items : ∀ i ∈ b.items, i.WellFormed
  separators : ∀ p ∈ b.others, p.1 = '\n' ∨ p.1 = ';'

instance : DecidablePred Body.WellFormed := fun b => decidable_of_iff' _ (wellFormed_iff b)

end Body

/-- A block as written, with the blanks before it. -/
structure Block where
  lead : List Char
  opening : Opening
  body : Body

namespace Block

def text (b : Block) : List Char := b.lead ++ (b.opening.text ++ '{' :: (b.body.text ++ ['}']))

/-- A block starts at the beginning of a line or right behind the block before it. -/
@[mk_iff]
structure WellFormed (b : Block) : Prop where
  lead : Blank b.lead ∧ (b.lead = [] ∨ b.lead.getLast? = some '\n')
  opening : b.opening.WellFormed
  body : b.body.WellFormed

instance : DecidablePred Block.WellFormed := fun b => decidable_of_iff' _ (wellFormed_iff b)

def isEntity (keywords : List String) (b : Block) : Bool := b.opening.isEntity keywords

def name (b : Block) : String := String.ofList b.opening.name

/-- The entity that a block declares, given the names of all entities. -/
def entity (entityNames : List String) (b : Block) : Entity :=
  ⟨b.name,b.body.items.filterMap (Item.field? entityNames)⟩

end Block

/-- A schema text as written: its blocks and the blanks behind them. -/
structure Document where
  blocks : List Block
  trailer : List Char

namespace Document

def text (d : Document) : String := String.ofList (d.blocks.flatMap Block.text ++ d.trailer)

@[mk_iff]
structure WellFormed (d : Document) : Prop where
  blocks : ∀ b ∈ d.blocks, b.WellFormed
  trailer : Blank d.trailer

instance : DecidablePred Document.WellFormed := fun d => decidable_of_iff' _ (wellFormed_iff d)

def entityBlocks (keywords : List String) (d : Document) : List Block :=
  d.blocks.filter (·.isEntity keywords)

def entityNames (keywords : List String) (d : Document) : List String :=
  (d.entityBlocks keywords).map Block.name

def entities (keywords : List String) (d : Document) : List Entity :=
  (d.entityBlocks keywords).map (Block.entity (d.entityNames keywords))

end Document

theorem FieldLine.WellFormed.shielded {l : FieldLine} (hl : l.WellFormed) : Shielded l.text := by
  have htype : '{' ∉ l.typeText := by
    unfold FieldLine.typeText FieldLine.elementText
    have hname := hl.typeName.2.1
    cases l.isOptional <;> cases l.isArray <;> simp [hname]
  have hindent : '{' ∉ l.indent := (plain_of_blank hl.indent).open_not_mem
  have hgap : '{' ∉ l.gap := (plain_of_blank hl.gap.2).open_not_mem
  have hattributes : Shielded l.attributeText := by
    refine shielded_flatMap fun segment hsegment => ?_
    cases segment with
    | plain text => exact shielded_of_not_mem (hl.attributes.2 _ hsegment)
    | quoted text =>
      exact shielded_behind List.not_mem_nil (by decide) (by decide) (by decide) (text ++ ['"'])
  exact (shielded_of_not_mem hindent).append ((shielded_of_not_mem hl.name.2.1).append
    ((shielded_of_not_mem hgap).append ((shielded_of_not_mem htype).append hattributes)))

theorem Item.WellFormed.shielded {i : Item} (hi : i.WellFormed) : Shielded i.text := by
  have hproper := hi.proper
  cases i with
  | blank text => exact shielded_of_not_mem (plain_of_blank hproper).open_not_mem
  | comment indent text =>
    exact shielded_behind (plain_of_blank hproper).open_not_mem (by decide) (by decide) (by decide) _
  | blockAttribute indent text =>
    exact shielded_behind (plain_of_blank hproper.1).open_not_mem (by decide) (by decide) (by decide) _
  | field line => exact FieldLine.WellFormed.shielded hproper

/-- A body is not split within an item. -/
theorem Inline.whole {line : List Char} (h : Inline line) :
    ∀ c ∈ line, (c == '\n' || c == ';') = false := by
  intro c hc
  obtain ⟨hnewline,hsemicolon,-⟩ := h c hc
  simp [hnewline, hsemicolon]

namespace Body.WellFormed
variable {b : Body}

theorem tail {first item : Item} {separator : Char} {others : List (Char × Item)}
    (h : Body.WellFormed ⟨first,(separator,item) :: others⟩) : Body.WellFormed ⟨item,others⟩ :=
  ⟨fun i hi => h.items i (List.mem_cons_of_mem _ hi),
    fun p hp => h.separators p (List.mem_cons_of_mem _ hp)⟩

theorem bodyLines_text (hb : b.WellFormed) : bodyLines b.text = b.items.map Item.text := by
  obtain ⟨first,others⟩ := b
  unfold bodyLines
  induction others generalizing first with
  | nil =>
    rw [text_nil]
    exact List.splitOnP_eq_singleton (hb.items first List.mem_cons_self).inline.whole
  | cons p others ih =>
    obtain ⟨separator,item⟩ := p
    have hfirst := (hb.items first List.mem_cons_self).inline.whole
    have hseparator : (separator == '\n' || separator == ';') = true := by
      simpa using hb.separators _ List.mem_cons_self
    rw [text_cons, List.splitOnP_append_cons_of_forall_mem hfirst _ hseparator, ih item hb.tail]
    rfl

theorem shielded (hb : b.WellFormed) : Shielded b.text := by
  refine (hb.items _ List.mem_cons_self).shielded.append (shielded_flatMap fun p hp => ?_)
  have hitem := (hb.items p.2 (List.mem_cons_of_mem _ (List.mem_map_of_mem hp))).shielded
  have hseparator : Shielded [p.1] :=
    shielded_of_not_mem (by rcases hb.separators p hp with h | h <;> simp [h])
  exact hseparator.append hitem

/-- From the start of any item on, no header reaches a brace of the body. -/
theorem guarded (hb : b.WellFormed) : Guarded b.text := by
  obtain ⟨first,others⟩ := b
  induction others generalizing first with
  | nil =>
    rw [text_nil]
    exact guarded_line (hb.items first List.mem_cons_self).inline
  | cons p others ih =>
    obtain ⟨separator,item⟩ := p
    rw [text_cons]
    exact Guarded.cons_line (hb.items first List.mem_cons_self).inline
      (hb.separators _ List.mem_cons_self) (ih item hb.tail) hb.tail.shielded

end Body.WellFormed

namespace Block.WellFormed
variable {b : Block} {last : Option Char}

theorem text_append (b : Block) (rest : List Char) :
    b.text ++ rest = b.lead ++ (b.opening.text ++ '{' :: (b.body.text ++ '}' :: rest)) := by
  simp [Block.text]

theorem names (hb : b.WellFormed) (hk : WordKeywords keywords) (hlast : mayStart last = true)
    (rest : List Char) : matchesFrom mayStart (header keywords) last 0 (b.text ++ rest) =
      (if b.isEntity keywords = true then [b.opening.name] else []) ++
        matchesFrom mayStart (header keywords) (some '}') 0 rest := by
  rw [text_append]
  exact matchesFrom_header_block hk hlast hb.lead.1 hb.lead.2 hb.opening hb.body.guarded rest

theorem bodies (hb : b.WellFormed) (hk : WordKeywords keywords) (hlast : mayStart last = true)
    (rest : List Char) : matchesFrom mayStart (block keywords) last 0 (b.text ++ rest) =
      (if b.isEntity keywords = true then [(b.opening.name,b.body.text)] else []) ++
        matchesFrom mayStart (block keywords) (some '}') 0 rest := by
  rw [text_append]
  exact matchesFrom_block hk hlast hb.lead.1 hb.lead.2 hb.opening hb.body.guarded rest

end Block.WellFormed

/-- A scan that takes something at each entity block and nothing else takes it in their order. -/
theorem matchesFrom_blocks {α : Type} {read : List Char → Option (α × List Char)} {found : Block → α}
    {blocks : List Block} {trailer : List Char} {last : Option Char}
    (hblock : ∀ b ∈ blocks, ∀ last, mayStart last = true → ∀ rest,
      matchesFrom mayStart read last 0 (b.text ++ rest) =
        (if b.isEntity keywords = true then [found b] else []) ++
          matchesFrom mayStart read (some '}') 0 rest)
    (htrailer : ∀ last, matchesFrom mayStart read last 0 trailer = []) (hlast : mayStart last = true) :
    matchesFrom mayStart read last 0 (blocks.flatMap Block.text ++ trailer) =
      (blocks.filter (·.isEntity keywords)).map found := by
  induction blocks generalizing last with
  | nil => exact htrailer last
  | cons b blocks ih =>
    obtain ⟨hb,hblocks⟩ := List.forall_mem_cons.mp hblock
    rw [List.flatMap_cons, List.append_assoc, hb last hlast, ih hblocks rfl]
    cases hentity : b.isEntity keywords <;> simp [hentity]

namespace Document.WellFormed
variable {d : Document}

theorem silent_trailer (hd : d.WellFormed) (hk : WordKeywords keywords) (last : Option Char) :
    Silent mayStart (header keywords) last d.trailer [] := by
  intro front back heq _ _
  refine header_eq_none_of_not_mem hk fun hc => ?_
  have hmem : '{' ∈ d.trailer := by
    rw [heq]
    exact List.mem_append_right _ (by simpa using hc)
  exact (plain_of_blank hd.trailer).open_not_mem hmem

theorem declaredNames_text (hd : d.WellFormed) (hk : WordKeywords keywords) :
    declaredNames keywords d.text = (d.entityNames keywords).eraseDups := by
  have hscan : matchesFrom mayStart (header keywords) none 0 d.text.toList =
      (d.entityBlocks keywords).map fun b => b.opening.name := by
    rw [Document.text, String.toList_ofList]
    exact matchesFrom_blocks (fun b hb _ hlast => (hd.blocks b hb).names hk hlast)
      (fun _ => matchesFrom_eq_nil (hd.silent_trailer hk _)) rfl
  rw [declaredNames, hscan, List.map_map]
  rfl

theorem entitiesWith_text (hd : d.WellFormed) (hk : WordKeywords keywords) (names : List String) :
    entitiesWith keywords names d.text = (d.entityBlocks keywords).map (Block.entity names) := by
  have hscan : matchesFrom mayStart (block keywords) none 0 d.text.toList =
      (d.entityBlocks keywords).map fun b => (b.opening.name,b.body.text) := by
    rw [Document.text, String.toList_ofList]
    exact matchesFrom_blocks (fun b hb _ hlast => (hd.blocks b hb).bodies hk hlast)
      (fun _ => matchesFrom_eq_nil (Silent.block hk (hd.silent_trailer hk _))) rfl
  rw [entitiesWith, hscan, List.map_map]
  refine List.map_congr_left fun b hb => ?_
  have hbody := (hd.blocks b (List.mem_filter.mp hb).1).body
  have hfields : (bodyLines b.body.text).filterMap (Schema.field? names) =
      b.body.items.filterMap (Item.field? names) := by
    rw [hbody.bodyLines_text, List.filterMap_map]
    exact List.filterMap_congr fun i hi => (hbody.items i hi).field?_text names
  simp only [Function.comp_apply, hfields]
  rfl

theorem parse_blocks (hd : d.WellFormed) (hk : WordKeywords keywords) : parse keywords d.text =
    (d.entityBlocks keywords).map (Block.entity (d.entityNames keywords).eraseDups) := by
  rw [parse, hd.declaredNames_text hk, hd.entitiesWith_text hk]

end Document.WellFormed

theorem Block.entity_congr {names names' : List String} (h : ∀ n, n ∈ names ↔ n ∈ names') (b : Block) :
    b.entity names = b.entity names' := by
  have hfield : ∀ i : Item, i.field? names = i.field? names' := by
    intro i
    cases i with
    | field line => simp only [Item.field?, FieldLine.field, h]
    | blank | comment | blockAttribute => rfl
  simp only [Block.entity, hfield]

/-- The entities of a schema text are its entity blocks with their fields, in the order of the text. -/
theorem parse_text {d : Document} (hk : WordKeywords keywords) (hd : d.WellFormed) :
    parse keywords d.text = d.entities keywords := by
  have hnames : ∀ n, n ∈ (d.entityNames keywords).eraseDups ↔ n ∈ d.entityNames keywords := fun _ =>
    List.mem_eraseDups
  rw [hd.parse_blocks hk]
  exact List.map_congr_left fun b _ => b.entity_congr hnames

/-- Two entities that refer to each other, with a foreign block between them. -/
def blog : Document :=
  ⟨[⟨[],⟨"model".toList,[' '],"Post".toList,[' ']⟩,⟨.blank [],
      [('\n',.comment [' '] " by whom".toList),
        ('\n',.field ⟨[' '],"author".toList,[' '],"User".toList,true,false,[]⟩),
        ('\n',.blockAttribute [' '] "@index([author])".toList),('\n',.blank [])]⟩⟩,
    ⟨['\n'],⟨"datasource".toList,[' '],"db".toList,[' ']⟩,⟨.blank [],
      [('\n',.field ⟨[' '],"provider".toList,[' '],['='],false,false,
        [.plain [' '],.quoted "sqlite".toList]⟩),('\n',.blank [])]⟩⟩,
    ⟨['\n'],⟨"entity".toList,[' '],"User".toList,[' ']⟩,⟨
      .field ⟨[' '],"name".toList,[' '],"String".toList,false,false,[.plain " @unique".toList]⟩,
      [(';',.field ⟨[' '],"posts".toList,[' '],"Post".toList,false,true,[.plain [' ']]⟩)]⟩⟩],['\n']⟩

theorem parse_blog : WordKeywords ["model","entity"] ∧ blog.WellFormed ∧
    blog.text = "model Post \x7b\n // by whom\n author User?\n @@index([author])\n\x7d\n" ++
      "datasource db \x7b\n provider = \"sqlite\"\n\x7d\n" ++
      "entity User \x7b name String @unique; posts Post[] \x7d\n" ∧
    parse ["model","entity"] blog.text =
      [⟨"Post",[⟨"author","User",true,true,false⟩]⟩,
        ⟨"User",[⟨"name","String",false,false,false⟩,⟨"posts","Post",true,false,true⟩]⟩] := by
  have hk : WordKeywords ["model","entity"] := by decide
  have hd : blog.WellFormed := by decide
  refine ⟨hk,hd,by decide +kernel,?_⟩
  rw [parse_text hk hd]
  decide

end WebAtlas.Schema
