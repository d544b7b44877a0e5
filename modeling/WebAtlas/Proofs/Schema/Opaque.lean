import WebAtlas.Proofs.Schema.Document

/-! # Texts without a meaning

What a comment says and what is quoted among the attributes of a field do not count for the parse, as
long as they hold no semicolon and no closing brace.
-/
namespace WebAtlas.Schema
variable {keywords : List String}

/-- The same text with nothing in its comments and quotes. -/
def Segment.redact : Segment → Segment
  | .plain text => .plain text
  | .quoted _ => .quoted []

def FieldLine.redact (l : FieldLine) : FieldLine :=
  { l with attributes := l.attributes.map Segment.redact }

def Item.redact : Item → Item
  | .blank text => .blank text
  | .comment indent _ => .comment indent []
  | .blockAttribute indent text => .blockAttribute indent text
  | .field line => .field line.redact

def Body.redact (b : Body) : Body := ⟨b.first.redact,b.others.map fun p => (p.1,p.2.redact)⟩

def Block.redact (b : Block) : Block := { b with body := b.body.redact }

def Document.redact (d : Document) : Document := { d with blocks := d.blocks.map Block.redact }

@[simp] theorem Item.field?_redact (i : Item) (names : List String) :
    i.redact.field? names = i.field? names := by
  cases i <;> rfl

@[simp] theorem Body.items_redact (b : Body) : b.redact.items = b.items.map Item.redact := by
  simp [items, redact]

@[simp] theorem Block.entity_redact (b : Block) (names : List String) :
    b.redact.entity names = b.entity names := by
  have hfields : b.body.redact.items.filterMap (Item.field? names) =
      b.body.items.filterMap (Item.field? names) := by
    rw [Body.items_redact, List.filterMap_map]
    exact List.filterMap_congr fun i _ => i.field?_redact names
  simp only [entity, redact, hfields]
  rfl

theorem Document.entityBlocks_redact (d : Document) (keywords : List String) :
    d.redact.entityBlocks keywords = (d.entityBlocks keywords).map Block.redact := by
  rw [entityBlocks, redact, List.filter_map]
  rfl

@[simp] theorem Document.entityNames_redact (d : Document) (keywords : List String) :
    d.redact.entityNames keywords = d.entityNames keywords := by
  rw [entityNames, entityBlocks_redact, List.map_map]
  rfl

@[simp] theorem Document.map_entity_redact (d : Document) (keywords names : List String) :
    (d.redact.entityBlocks keywords).map (Block.entity names) =
      (d.entityBlocks keywords).map (Block.entity names) := by
  rw [entityBlocks_redact, List.map_map]
  exact List.map_congr_left fun b _ => b.entity_redact names

/-- Texts that differ only in comments and in what is quoted have the same entities. -/
theorem parse_of_redact {d d' : Document} (hk : WordKeywords keywords) (hd : d.WellFormed)
    (hd' : d'.WellFormed) (h : d.redact = d'.redact) :
    parse keywords d.text = parse keywords d'.text := by
  have hnames : d.entityNames keywords = d'.entityNames keywords := by
    rw [← d.entityNames_redact, h, d'.entityNames_redact]
  rw [hd.parse_blocks hk, hd'.parse_blocks hk, hnames, ← d.map_entity_redact, h, d'.map_entity_redact]

/-- An entity with a comment and a default value, and one without fields. -/
def remarked (remark value : String) : Document :=
  ⟨[⟨[],⟨"model".toList,[' '],"A".toList,[' ']⟩,⟨.blank [],[('\n',.comment [' '] remark.toList),
      ('\n',.field ⟨[' '],"meta".toList,[' '],"String".toList,false,false,
        [.plain " @default(".toList,.quoted value.toList,.plain [')']]⟩),
      ('\n',.field ⟨[' '],"tag".toList,[' '],"String".toList,false,false,[]⟩),('\n',.blank [])]⟩⟩,
    ⟨['\n'],⟨"model".toList,[' '],"Post".toList,[' ']⟩,⟨.blank [],[]⟩⟩],[]⟩

theorem remarked_redact (remark value remark' value' : String) :
    (remarked remark value).redact = (remarked remark' value').redact := rfl

/-- Opening braces in a comment and in quotes do not count. -/
theorem parse_remarked : WordKeywords ["model","entity"] ∧
    (remarked " see docs" "x").WellFormed ∧ (remarked "model B \x7b" "\x7b").WellFormed ∧
    (remarked " see docs" "x").redact = (remarked "model B \x7b" "\x7b").redact ∧
    parse ["model","entity"] (remarked " see docs" "x").text =
      parse ["model","entity"] (remarked "model B \x7b" "\x7b").text := by
  have hk : WordKeywords ["model","entity"] := by decide
  have hd : (remarked " see docs" "x").WellFormed := by decide
  have hd' : (remarked "model B \x7b" "\x7b").WellFormed := by decide
  have hredact := remarked_redact " see docs" "x" "model B \x7b" "\x7b"
  exact ⟨hk,hd,hd',hredact,parse_of_redact hk hd hd' hredact⟩

/-- What follows a semicolon in a comment is read as a field, and a closing brace in quotes ends the
entity. -/
theorem parse_remarked_cut : (remarked " see docs" "x").WellFormed ∧
    (remarked " see docs" "x").redact = (remarked " see docs; posts Post[]" "x").redact ∧
    (remarked " see docs" "x").redact = (remarked " see docs" "\x7b\x7d").redact ∧
    parse ["model","entity"] (remarked " see docs" "x").text =
      [⟨"A",[⟨"meta","String",false,false,false⟩,⟨"tag","String",false,false,false⟩]⟩,⟨"Post",[]⟩] ∧
    parse ["model","entity"] (remarked " see docs; posts Post[]" "x").text =
      [⟨"A",[⟨"posts","Post",true,false,true⟩,⟨"meta","String",false,false,false⟩,
        ⟨"tag","String",false,false,false⟩]⟩,⟨"Post",[]⟩] ∧
    parse ["model","entity"] (remarked " see docs" "\x7b\x7d").text =
      [⟨"A",[⟨"meta","String",false,false,false⟩]⟩,⟨"Post",[]⟩] := by
  refine ⟨by decide,remarked_redact .., remarked_redact ..,?_,?_,?_⟩
  all_goals decide +kernel

end WebAtlas.Schema
