import WebAtlas.Proofs.Schema.Opening
import WebAtlas.Proofs.Schema.Relationships
import WebAtlas.Proofs.Text.Places

/-! # Declared names and entities

The two passes over a text take different matches: the first goes on behind an opening brace and the
second behind a closing one. Still the first finds the name of every declaration, since one that it
passes over ends at the same brace as the one that covers it. The second finds a declaration whose
block is closed, unless another block has it in its body.
-/
namespace WebAtlas.Schema
open Text
variable {keywords names : List String} {text name cover : String}
  {ahead inner rest rest' body body' found other : List Char} {taken : Taken (List Char × List Char)}
  {e : Entity} {f : Field}

/-- A declaration as written, up to its opening brace. -/
def Declaration (keywords : List String) (name : String) (ahead rest : List Char) : Prop :=
  ∃ indent keyword gap space, Indent indent ∧ keyword ∈ keywordTexts keywords ∧ Gap gap ∧
    Word name.toList ∧ Blank space ∧
      ahead = indent ++ (keyword ++ (gap ++ (name.toList ++ (space ++ '{' :: rest))))

/-- A name is declared at a place of a text where a declaration may start; `ahead` is the text from
there on and `rest` the text behind the opening brace. -/
structure Declared (keywords : List String) (text name : String) (ahead rest : List Char) : Prop where
  place : ∃ front, text.toList = front ++ ahead ∧ mayStart front.getLast? = true
  written : Declaration keywords name ahead rest

/-- A place lies in the body of a block, which ends at the next closing brace. -/
def InBody (keywords : List String) (text : String) (ahead : List Char) : Prop :=
  ∃ name outer body inside rest, Declared keywords text name outer (body ++ '}' :: rest) ∧ '}' ∉ body ∧
    inside <:+ body ∧ ahead = inside ++ '}' :: rest

theorem declaration_of_header (h : header keywords ahead = some (found,rest)) :
    Declaration keywords (String.ofList found) ahead rest := by
  obtain ⟨indent,behind,hindent,rfl,keyword,hmem,hread⟩ := afterIndent_eq_some h
  obtain ⟨gap,space,hne,hgap,hname,hspace,rfl⟩ := headerWith_eq_some_iff.mp hread
  refine ⟨indent,keyword,gap,space,hindent,hmem,⟨hne,hgap⟩,?_,hspace,?_⟩
  · rwa [String.toList_ofList]
  · rw [String.toList_ofList]

theorem Declaration.header_eq (hb : Braceless keywords) (h : Declaration keywords name ahead rest) :
    header keywords ahead = some (name.toList,rest) := by
  obtain ⟨_,_,_,_,hindent,hkeyword,hgap,hname,hspace,rfl⟩ := h
  exact header_of_headerWith hb hindent hkeyword
    (headerWith_eq_some_iff.mpr ⟨_,_,hgap.1,hgap.2,hname,hspace,rfl⟩)

theorem Declaration.ne_nil (h : Declaration keywords name ahead rest) : ahead ≠ [] := by
  obtain ⟨_,_,_,_,-,-,hgap,-,-,rfl⟩ := h
  simp [hgap.1]

theorem declared_iff (hb : Braceless keywords) : Declared keywords text name ahead rest ↔
    ReadAt mayStart (header keywords) none text.toList ahead name.toList rest := by
  constructor
  · rintro ⟨⟨front,htext,hstart⟩,hwritten⟩
    exact ⟨⟨front,htext,hwritten.ne_nil,by simpa [lastOf] using hstart⟩,hwritten.header_eq hb⟩
  · rintro ⟨⟨front,htext,-,hstart⟩,hread⟩
    have hwritten := declaration_of_header hread
    rw [String.ofList_toList] at hwritten
    exact ⟨⟨front,htext,by simpa [lastOf] using hstart⟩,hwritten⟩

theorem endsAt_header (hb : Braceless keywords) : EndsAt '{' (header keywords) := by
  refine ⟨fun h => ?_⟩
  obtain ⟨before,-,hbefore,heq⟩ := announces_of_header hb h
  exact ⟨before,hbefore.1,heq⟩

/-- A header that covers a place where another can be read has the name of that other. -/
theorem header_alike (hb : Braceless keywords) (h : header keywords (inner ++ ahead) = some (found,rest))
    (h' : header keywords ahead = some (other,rest')) (hcover : rest.length < ahead.length) :
    found = other := by
  obtain rfl := (endsAt_header hb).ends_alike h h' hcover
  obtain ⟨before,hannounces,-,hwhole⟩ := announces_of_header hb h
  obtain ⟨before',hannounces',-,rfl⟩ := announces_of_header hb h'
  rw [← List.append_assoc] at hwhole
  obtain rfl := List.append_cancel_right hwhole
  rw [← hannounces.name_eq, (hannounces'.append inner).name_eq]

/-- The first pass finds every declared name and no other. -/
theorem mem_declaredNames_iff (hb : Braceless keywords) : name ∈ declaredNames keywords text ↔
    ∃ ahead rest, Declared keywords text name ahead rest := by
  rw [declaredNames, List.mem_eraseDups, List.mem_map, ← map_matchesFrom_located]
  constructor
  · rintro ⟨found,hfound,rfl⟩
    obtain ⟨taken,htaken,rfl⟩ := List.mem_map.mp hfound
    refine ⟨taken.ahead,taken.rest,(declared_iff hb).mpr ?_⟩
    rw [String.toList_ofList]
    exact readAt_of_mem htaken
  · rintro ⟨ahead,rest,hdeclared⟩
    have hread := (declared_iff hb).mp hdeclared
    obtain ⟨taken,htaken,inner,hahead,hstart⟩ := hread.taken_or_covered
    have htakenRead := (readAt_of_mem htaken).reads
    refine ⟨taken.found,List.mem_map_of_mem htaken,?_⟩
    rw [hahead] at htakenRead
    have hname : taken.found = name.toList := by
      rcases hstart with rfl | hcover
      · exact (Prod.mk.inj (Option.some.inj (htakenRead.symm.trans hread.reads))).1
      · exact header_alike hb htakenRead hread.reads hcover
    rw [hname, String.ofList_toList]

def blocks (keywords : List String) (text : String) : List (Taken (List Char × List Char)) :=
  matchesFrom mayStart (located (block keywords)) none 0 text.toList

theorem entitiesWith_eq (keywords names : List String) (text : String) :
    entitiesWith keywords names text = (blocks keywords text).map fun taken =>
      ⟨String.ofList taken.found.1,(bodyLines taken.found.2).filterMap (field? names)⟩ := by
  rw [entitiesWith, ← map_matchesFrom_located, List.map_map]
  rfl

theorem isRelation_of_field? {line : List Char} (h : field? names line = some f) :
    f.isRelation = names.contains f.typeName := by
  simp only [field?] at h
  split at h
  · cases h
  · split at h
    · split at h
      · cases h
      · cases h
        rfl
    · cases h

theorem isRelation_of_mem (he : e ∈ entitiesWith keywords names text) (hf : f ∈ e.fields) :
    f.isRelation = names.contains f.typeName := by
  rw [entitiesWith_eq] at he
  obtain ⟨taken,-,rfl⟩ := List.mem_map.mp he
  obtain ⟨line,-,hline⟩ := List.mem_filterMap.mp hf
  exact isRelation_of_field? hline

theorem Declared.readAt_block (hb : Braceless keywords)
    (h : Declared keywords text name ahead (body ++ '}' :: rest)) (hbody : '}' ∉ body) :
    ReadAt mayStart (block keywords) none text.toList ahead (name.toList,body) rest :=
  have hread := (declared_iff hb).mp h
  ⟨hread.place,block_of_header hb hread.reads hbody⟩

/-- Each block that is taken is declared, up to its closing brace. -/
theorem declared_of_taken (hb : Braceless keywords) (h : taken ∈ blocks keywords text) :
    Declared keywords text (String.ofList taken.found.1) taken.ahead
      (taken.found.2 ++ '}' :: taken.rest) ∧ '}' ∉ taken.found.2 := by
  have hread := readAt_of_mem h
  obtain ⟨hheader,hbody⟩ := header_of_block hb hread.reads
  refine ⟨(declared_iff hb).mpr ⟨hread.place,?_⟩,hbody⟩
  rwa [String.toList_ofList]

theorem mem_names : name ∈ (entitiesWith keywords names text).map (·.name) ↔
    ∃ taken ∈ blocks keywords text, String.ofList taken.found.1 = name := by
  rw [entitiesWith_eq, List.map_map]
  exact List.mem_map

def nested : String := "model A \x7b\na b C \x7b\nx B\n\x7d\n\x7d model B \x7b c C[] \x7d a b D \x7b"

/-- Every entity has a name of the first pass, whatever names its fields were read with, so a field
that has an entity for its type is a relation. -/
theorem entity_names_declared (hb : Braceless keywords) (text : String) :
    (∀ names, ∀ e ∈ entitiesWith keywords names text, e.name ∈ declaredNames keywords text) ∧
    ∀ e ∈ parse keywords text, ∀ owner ∈ parse keywords text, ∀ f ∈ owner.fields,
      f.typeName = e.name → f.isRelation = true := by
  have hdeclared : ∀ names, ∀ e ∈ entitiesWith keywords names text,
      e.name ∈ declaredNames keywords text := by
    intro names e he
    obtain ⟨taken,htaken,hname⟩ := mem_names.mp (List.mem_map_of_mem he)
    rw [← hname]
    exact (mem_declaredNames_iff hb).mpr ⟨_,_,(declared_of_taken hb htaken).1⟩
  refine ⟨hdeclared,fun e he owner howner f hf htype => ?_⟩
  rw [isRelation_of_mem howner hf, htype, List.contains_iff_mem]
  exact hdeclared _ e he

/-- Nested and open blocks, with an empty keyword and one of two words. -/
theorem entity_names_declared_nested : Braceless ["model", "a b", ""] ∧
    (∀ e ∈ entitiesWith ["model", "a b", ""] [] nested,
      e.name ∈ declaredNames ["model", "a b", ""] nested) ∧
    ∀ owner ∈ parse ["model", "a b", ""] nested, ∀ f ∈ owner.fields,
      f.typeName = "B" → f.isRelation = true := by
  have hb : Braceless ["model", "a b", ""] := by decide
  have hmem : ⟨"B",[⟨"c","C",true,false,true⟩]⟩ ∈ parse ["model", "a b", ""] nested := by
    decide +kernel
  obtain ⟨hnames,hrelations⟩ := entity_names_declared hb nested
  exact ⟨hb,hnames [],hrelations _ hmem⟩

theorem endsAt_block (hb : Braceless keywords) : EndsAt '}' (block keywords) := by
  refine ⟨fun {ahead found rest} h => ?_⟩
  obtain ⟨hheader,hbody⟩ := header_of_block hb h
  obtain ⟨before,-,hbefore,rfl⟩ := announces_of_header hb hheader
  exact ⟨before ++ '{' :: found.2,by simp [hbefore.2, hbody],by simp⟩

/-- A declaration that the second pass takes is in the body of no block. -/
theorem not_inBody_of_taken (hb : Braceless keywords) (h : taken ∈ blocks keywords text) :
    ¬ InBody keywords text taken.ahead := by
  rintro ⟨name,outer,body,inside,rest,hdeclared,hbody,⟨front,rfl⟩,hahead⟩
  have hread := hdeclared.readAt_block hb hbody
  obtain ⟨before,-,-,houter⟩ := announces_of_header hb ((declared_iff hb).mp hdeclared).reads
  have hwhole : outer = (before ++ '{' :: front) ++ taken.ahead := by
    rw [houter, hahead]
    simp
  rw [hwhole] at hread
  have hapart := (endsAt_block hb).not_covered h hread (by simp)
  rw [hahead, List.length_append, List.length_cons] at hapart
  omega

/-- A block that goes on to the end of another one has its name, or has it in its body. -/
theorem name_eq_or_inBody (hb : Braceless keywords)
    (hcover : Declared keywords text cover (inner ++ ahead) (body' ++ '}' :: rest)) (hbody' : '}' ∉ body')
    (h : Declared keywords text name ahead (body ++ '}' :: rest)) (hbody : '}' ∉ body) :
    cover = name ∨ InBody keywords text ahead := by
  have hcoverHeader := ((declared_iff hb).mp hcover).reads
  by_cases hopen : (body' ++ '}' :: rest).length < ahead.length
  · have hheader := ((declared_iff hb).mp h).reads
    exact .inl (String.toList_inj.mp (header_alike hb hcoverHeader hheader hopen))
  · -- the place is behind the opening brace of the block that covers it
    right
    obtain ⟨before,-,-,hbefore⟩ := announces_of_header hb hcoverHeader
    obtain ⟨inside,-,hinside⟩ := (endsAt_block hb).split (h.readAt_block hb hbody).reads
    have hbehind : body' ++ '}' :: rest <:+ inner ++ ahead := ⟨before ++ ['{'],by rw [hbefore]; simp⟩
    obtain ⟨front,hfront⟩ := List.suffix_of_suffix_length_le (List.suffix_append inner ahead) hbehind
      (Nat.le_of_not_lt hopen)
    rw [hinside, ← List.append_assoc] at hfront
    exact ⟨cover,inner ++ ahead,body',inside,rest,hcover,hbody',
      ⟨front,List.append_cancel_right hfront⟩,hinside⟩

/-- A closed declaration that is in the body of no block is an entity. -/
theorem mem_names_of_declared (hb : Braceless keywords)
    (h : Declared keywords text name ahead (body ++ '}' :: rest)) (hbody : '}' ∉ body)
    (houtside : ¬ InBody keywords text ahead) :
    name ∈ (entitiesWith keywords names text).map (·.name) := by
  have hread := h.readAt_block hb hbody
  obtain ⟨taken,htaken,inner,hahead,hstart⟩ := hread.taken_or_covered
  have hreads := (readAt_of_mem htaken).reads
  obtain ⟨hcover,hclosed⟩ := declared_of_taken hb htaken
  rw [hahead] at hreads hcover
  have hrest : taken.rest = rest := by
    rcases hstart with rfl | hpast
    · exact (Prod.mk.inj (Option.some.inj (hreads.symm.trans hread.reads))).2
    · exact (endsAt_block hb).ends_alike hreads hread.reads hpast
  rw [hrest] at hcover
  exact mem_names.mpr ⟨taken,htaken,(name_eq_or_inBody hb hcover hclosed h hbody).resolve_right houtside⟩

/-- The second pass finds the names of the closed declarations that no block has in its body. -/
theorem mem_names_iff (hb : Braceless keywords) :
    name ∈ (entitiesWith keywords names text).map (·.name) ↔ ∃ ahead rest,
      Declared keywords text name ahead rest ∧ '}' ∈ rest ∧ ¬ InBody keywords text ahead := by
  constructor
  · intro h
    obtain ⟨taken,htaken,rfl⟩ := mem_names.mp h
    exact ⟨_,_,(declared_of_taken hb htaken).1,by simp,not_inBody_of_taken hb htaken⟩
  · rintro ⟨ahead,rest,hdeclared,hclosed,houtside⟩
    obtain ⟨body,behind,rfl,hbody⟩ := List.eq_append_cons_of_mem hclosed
    exact mem_names_of_declared hb hdeclared hbody houtside

/-- Each relationship leads from an entity to a declared name. That name is an entity, too, unless
each of its declarations is open or in the body of a block. -/
theorem relationship_ends (hb : Braceless keywords) (text : String) {r : Relationship}
    (h : r ∈ relationships (parse keywords text)) :
    r.source ∈ (parse keywords text).map (·.name) ∧ r.target ∈ declaredNames keywords text ∧
    (r.target ∈ (parse keywords text).map (·.name) ↔ ∃ ahead rest,
      Declared keywords text r.target ahead rest ∧ '}' ∈ rest ∧ ¬ InBody keywords text ahead) := by
  have hlinks : r.Links r.source r.target := .inl ⟨rfl,rfl⟩
  obtain ⟨f,hfind,rfl⟩ := mem_relationships_iff.mp ⟨h,hlinks⟩
  obtain ⟨e,he,hfield⟩ := List.mem_flatMap.mp (List.mem_of_find?_eq_some hfind)
  obtain ⟨field,hmem,rfl⟩ := List.mem_map.mp hfield
  obtain ⟨hfield,hrelation⟩ := List.mem_filter.mp hmem
  refine ⟨List.mem_map_of_mem he,?_,mem_names_iff hb⟩
  rwa [isRelation_of_mem he hfield, List.contains_iff_mem] at hrelation

/-- Relations to an entity, to a declaration in the body of that entity and to an open one. -/
def torn : String :=
  "model A \x7b b B; c C; d D \x7d\nmodel B \x7b\nmodel C \x7b x X \x7d\n\x7d\nmodel D \x7b"

theorem relationship_ends_torn :
    Braceless ["model", "entity"] ∧
    ⟨"A","C",.oneToOne,"c"⟩ ∈ relationships (parse ["model", "entity"] torn) ∧
    "C" ∈ declaredNames ["model", "entity"] torn ∧
    ¬ ∃ ahead rest, Declared ["model", "entity"] torn "C" ahead rest ∧ '}' ∈ rest ∧
      ¬ InBody ["model", "entity"] torn ahead := by
  have hb : Braceless ["model", "entity"] := by decide
  have hmem : ⟨"A","C",.oneToOne,"c"⟩ ∈ relationships (parse ["model", "entity"] torn) := by
    decide +kernel
  have hunlisted : "C" ∉ (parse ["model", "entity"] torn).map (·.name) := by decide +kernel
  obtain ⟨-,hdeclared,hlisted⟩ := relationship_ends hb torn hmem
  exact ⟨hb,hmem,hdeclared,fun h => hunlisted (hlisted.mpr h)⟩

/-- A relationship to a declaration whose block is not closed leads to no entity. -/
theorem relationship_to_open :
    relationships (parse ["model", "entity"] "model A \x7b x B \x7d\nmodel B \x7b") =
      [⟨"A","B",.oneToOne,"x"⟩] ∧
    "B" ∉ (parse ["model", "entity"] "model A \x7b x B \x7d\nmodel B \x7b").map (·.name) := by
  decide +kernel

end WebAtlas.Schema
