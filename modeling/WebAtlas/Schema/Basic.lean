/-! # Schemas

The entities of a schema file with their fields, and the relationships between entities.
-/
namespace WebAtlas.Schema

structure Field where
  name : String
  typeName : String
  isRelation : Bool := false
  isOptional : Bool := false
  isArray : Bool := false
deriving DecidableEq, Repr

structure Entity where
  name : String
  fields : List Field
deriving DecidableEq, Repr

inductive Cardinality
  | oneToOne
  | oneToMany
  | manyToMany
deriving DecidableEq, Repr

def Cardinality.name : Cardinality → String
  | .oneToOne => "one-to-one"
  | .oneToMany => "one-to-many"
  | .manyToMany => "many-to-many"

/-- Two entities linked by a field of the first. -/
structure Relationship where
  source : String
  target : String
  cardinality : Cardinality
  fieldName : String
deriving DecidableEq, Repr

end WebAtlas.Schema
