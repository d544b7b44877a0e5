import WebAtlas.Proofs.Schema.Relationships
import Mathlib.Data.Sym.Sym2

/-! # One relationship for each pair

The relationships of a schema are those of its pairs of entities, in the order in which the pairs first
come up in a relation field. The first field of a pair decides its relationship, and a field that leads
back is looked for in the last entity of the name only, also when an entity leads to itself.
-/
namespace WebAtlas.Schema
variable {entities : List Entity} {seen fields : List RelationField} {f g : RelationField}
  {r : Relationship} {e : Entity} {back : Field} {name a b : String}

/-- The two entities that a field links, in no order. -/
def RelationField.pair (f : RelationField) : Sym2 String := s(f.owner,f.field.typeName)

def Relationship.pair (r : Relationship) : Sym2 String := s(r.source,r.target)

/-- The last of the entities with a name. -/
def LastNamed (entities : List Entity) (name : String) (e : Entity) : Prop :=
  e.name = name ∧ ∃ front back, entities = front ++ e :: back ∧ ∀ d ∈ back, d.name ≠ name

/-- The first relation field of an entity that leads to a name. -/
def FirstTo (e : Entity) (name : String) (field : Field) : Prop :=
  (field.isRelation = true ∧ field.typeName = name) ∧
    ∃ front back, e.fields = front ++ field :: back ∧
      ∀ other ∈ front, ¬ (other.isRelation = true ∧ other.typeName = name)

/-- The field that leads back from the target of a field to its owner is one to many. -/
def ManyBack (entities : List Entity) (f : RelationField) : Prop :=
  ∃ target back, LastNamed entities f.field.typeName target ∧ FirstTo target f.owner back ∧
    back.isArray = true

/-- What the first field of a pair makes of its relationship. -/
inductive Decides (entities : List Entity) (f : RelationField) : Relationship → Prop
  | one (h : f.field.isArray = false) :
    Decides entities f ⟨f.owner,f.field.typeName,.oneToOne,f.field.name⟩
  | both (h : f.field.isArray = true) (hback : ManyBack entities f) :
    Decides entities f ⟨f.owner,f.field.typeName,.manyToMany,f.field.name⟩
  | many (h : f.field.isArray = true) (hback : ¬ ManyBack entities f) :
    Decides entities f ⟨f.owner,f.field.typeName,.oneToMany,f.field.name⟩

theorem pair_eq_iff : f.pair = s(a,b) ↔ f.Links a b := Sym2.eq_iff

theorem samePair_iff_pair : f.samePair g = true ↔ g.pair = f.pair := by
  rw [samePair_iff, ← pair_eq_iff, RelationField.pair, RelationField.pair, eq_comm]

theorem any_samePair_iff : seen.any f.samePair = true ↔ f.pair ∈ seen.map RelationField.pair := by
  simp only [List.any_eq_true, samePair_iff_pair, List.mem_map]

/-- The pairs of the fields kept are those not seen before, each at its first field. -/
theorem map_pair_firstOfPairs (seen fields : List RelationField) :
    (firstOfPairs seen fields).map RelationField.pair =
      ((fields.map RelationField.pair).filter (· ∉ seen.map RelationField.pair)).eraseDups := by
  induction fields generalizing seen with
  | nil => rfl
  | cons f fields ih =>
    rw [firstOfPairs, List.map_cons]
    by_cases hseen : seen.any f.samePair = true
    · have hmem : f.pair ∈ seen.map RelationField.pair := any_samePair_iff.mp hseen
      rw [if_pos hseen, ih, List.filter_cons_of_neg (by simpa using hmem)]
    · have hmem : f.pair ∉ seen.map RelationField.pair := fun h => hseen (any_samePair_iff.mpr h)
      rw [if_neg hseen, List.map_cons, ih, List.filter_cons_of_pos (by simpa using hmem),
        List.eraseDups_cons, List.filter_filter]
      congr 2
      apply List.filter_congr
      intro pair _
      rw [Bool.eq_iff_iff]
      simp

theorem relationships_map_pair (entities : List Entity) : (relationships entities).map Relationship.pair =
    ((relationFields entities).map RelationField.pair).eraseDups := by
  have h := map_pair_firstOfPairs [] (relationFields entities)
  rw [List.map_nil, List.filter_eq_self.mpr (by simp)] at h
  rw [← h, relationships, List.map_map]
  rfl

theorem lastNamed_iff : entities.reverse.find? (·.name == name) = some e ↔
    LastNamed entities name e := by
  rw [List.find?_eq_some_iff_append, LastNamed, beq_iff_eq]
  apply and_congr_right
  intro _
  constructor
  · rintro ⟨behind,ahead,hsplit,hnone⟩
    refine ⟨ahead.reverse,behind.reverse,?_,by simpa using hnone⟩
    rw [← List.reverse_reverse entities, hsplit]
    simp
  · rintro ⟨front,back,rfl,hnone⟩
    exact ⟨back.reverse,front.reverse,by simp,by simpa using hnone⟩

theorem firstTo_iff : (e.fields.find? fun back => back.isRelation && back.typeName == name) = some back ↔
    FirstTo e name back := by
  have hnot : ∀ other : Field, (!(other.isRelation && other.typeName == name)) = true ↔
      ¬ (other.isRelation = true ∧ other.typeName = name) := by simp [imp_iff_not_or]
  rw [List.find?_eq_some_iff_append]
  simp only [hnot, Bool.and_eq_true, beq_iff_eq, FirstTo]

theorem manyBack_iff : (fieldBack? entities f).any (·.isArray) = true ↔ ManyBack entities f := by
  simp only [Option.any_eq_true, fieldBack?, Option.bind_eq_some_iff, lastNamed_iff, firstTo_iff,
    ManyBack]
  constructor
  · rintro ⟨back,⟨target,hlast,hfirst⟩,hmany⟩
    exact ⟨target,back,hlast,hfirst,hmany⟩
  · rintro ⟨target,back,hlast,hfirst,hmany⟩
    exact ⟨back,⟨target,hlast,hfirst⟩,hmany⟩

theorem decides_relationship (entities : List Entity) (f : RelationField) :
    Decides entities f (f.relationship entities) := by
  unfold RelationField.relationship cardinality
  cases h : f.field.isArray with
  | false => exact .one h
  | true =>
    by_cases hback : ManyBack entities f
    · rw [if_pos rfl, if_pos (manyBack_iff.mpr hback)]
      exact .both h hback
    · rw [if_pos rfl, if_neg fun hany => hback (manyBack_iff.mp hany)]
      exact .many h hback

/-- There is one relationship for each pair that a relation field links, in the order in which the pairs
first come up, and the first field of its pair decides it. -/
theorem relationships_of_pairs (entities : List Entity) :
    (relationships entities).map Relationship.pair =
      ((relationFields entities).map RelationField.pair).eraseDups ∧
    ∀ r ∈ relationships entities, ∃ f,
      (relationFields entities).find? (·.pair = r.pair) = some f ∧ Decides entities f r := by
  refine ⟨relationships_map_pair entities,fun r hr => ?_⟩
  obtain ⟨f,hfind,rfl⟩ := mem_relationships_iff.mp ⟨hr,.inl ⟨rfl,rfl⟩⟩
  refine ⟨f,?_,decides_relationship entities f⟩
  rw [← hfind]
  congr 1
  funext g
  exact decide_eq_decide.mpr pair_eq_iff

/-- A member has many friends among the members; a later entity of the name of posts has many authors. -/
def club : List Entity :=
  [⟨"Member",[manyField "friends" "Member", manyField "posts" "Post"]⟩,
    ⟨"Post",[oneField "author" "Member"]⟩, ⟨"Post",[manyField "authors" "Member"]⟩]

/-- Friends lead back to their own entity, and it is the last of the posts whose field counts. -/
theorem relationships_of_pairs_club :
    (relationships club).map Relationship.pair = [s("Member","Member"),s("Member","Post")] ∧
    ⟨"Member","Post",.manyToMany,"posts"⟩ ∈ relationships club ∧
    ∃ f, (relationFields club).find? (·.pair = s("Member","Post")) = some f ∧
      Decides club f ⟨"Member","Post",.manyToMany,"posts"⟩ := by
  obtain ⟨hpairs,hdecided⟩ := relationships_of_pairs club
  have hmem : ⟨"Member","Post",.manyToMany,"posts"⟩ ∈ relationships club := by decide
  exact ⟨hpairs.trans (by decide),hmem,hdecided _ hmem⟩

end WebAtlas.Schema
