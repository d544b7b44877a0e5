import WebAtlas.Schema.Basic

/-! # Relationships

Each pair of entities that some relation field links gives one relationship, which the first such
field decides. A field that holds many counts as many on both sides when a field back also does.
-/
namespace WebAtlas.Schema

/-- A relation field with the entity that owns it. -/
structure RelationField where
  owner : String
  field : Field
deriving DecidableEq, Repr

def relationFields (entities : List Entity) : List RelationField :=
  entities.flatMap fun e => (e.fields.filter (·.isRelation)).map (⟨e.name, ·⟩)

/-- Whether two fields link the same two entities, in either direction. -/
def RelationField.samePair (a b : RelationField) : Bool :=
  (a.owner == b.owner && a.field.typeName == b.field.typeName) ||
    (a.owner == b.field.typeName && a.field.typeName == b.owner)

/-- The first field of every pair; `seen` holds those found so far. -/
def firstOfPairs (seen : List RelationField) : List RelationField → List RelationField
  | [] => []
  | f :: rest =>
    if seen.any f.samePair then firstOfPairs seen rest else f :: firstOfPairs (f :: seen) rest

/-- The first field of the last entity named as the type of `f` that leads back to its owner. -/
def fieldBack? (entities : List Entity) (f : RelationField) : Option Field :=
  (entities.reverse.find? (·.name == f.field.typeName)).bind fun target =>
    target.fields.find? fun back => back.isRelation && back.typeName == f.owner

def cardinality (entities : List Entity) (f : RelationField) : Cardinality :=
  if f.field.isArray then
    if (fieldBack? entities f).any (·.isArray) then .manyToMany else .oneToMany
  else .oneToOne

def relationships (entities : List Entity) : List Relationship :=
  (firstOfPairs [] (relationFields entities)).map fun f =>
    ⟨f.owner, f.field.typeName, cardinality entities f, f.field.name⟩

end WebAtlas.Schema
