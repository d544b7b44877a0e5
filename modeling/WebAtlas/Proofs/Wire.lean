import WebAtlas.Proofs.Json.Injective
import WebAtlas.Wire
import Mathlib.Data.List.Basic

/-! # Nothing is lost on the wire

An analysis and all its parts are told apart by the values that stand for them, and these by their texts.
Enumerated values have different names, and a part that is absent is written as no report is.
-/
namespace WebAtlas

theorem HttpMethod.name_inj {a b : HttpMethod} : a.name = b.name ↔ a = b := by
  cases a <;> cases b <;> simp [name]

theorem AccessTier.name_inj {a b : AccessTier} : a.name = b.name ↔ a = b := by
  cases a <;> cases b <;> simp [name]

theorem ExecutionContext.name_inj {a b : ExecutionContext} : a.name = b.name ↔ a = b := by
  cases a <;> cases b <;> simp [name]

theorem Schema.Cardinality.name_inj {a b : Cardinality} : a.name = b.name ↔ a = b := by
  cases a <;> cases b <;> simp [name]

theorem Source.Role.name_inj {a b : Role} : a.name = b.name ↔ a = b := by
  cases a <;> cases b <;> simp [name]

namespace Json
variable {α : Type} {encode : α → Json} {a b : α}

/-- An encoding that tells values apart and that a text can be written for. -/
structure Faithful (encode : α → Json) : Prop where
  exact (a : α) : (encode a).Exact
  injective : Function.Injective encode

namespace Faithful

theorem render_eq_iff (h : Faithful encode) : (encode a).render = (encode b).render ↔ a = b := by
  constructor
  · intro htext
    exact h.injective (render_inj (h.exact a) (h.exact b) htext)
  · rintro rfl
    rfl

theorem map_eq_iff (h : Faithful encode) {l l' : List α} : l.map encode = l'.map encode ↔ l = l' :=
  (List.map_injective_iff.mpr h.injective).eq_iff

theorem ofOption_eq_iff (h : Faithful encode) (hnull : ∀ a, encode a ≠ .null) (part part' : Option α) :
    ofOption encode part = ofOption encode part' ↔ part = part' := by
  cases part with
  | none =>
    cases part' with
    | none => simp
    | some b => simpa [ofOption] using (hnull b).symm
  | some a =>
    cases part' with
    | none => simpa [ofOption] using hnull a
    | some b => simp [ofOption, h.injective.eq_iff]

end Faithful

theorem exact_ofOption (h : Faithful encode) (part : Option α) : (ofOption encode part).Exact := by
  cases part with
  | none => exact .null
  | some a => exact h.exact a

theorem faithful_strings : Faithful strings where
  exact values := by simp [strings]
  injective := by
    intro values values' h
    have hstring : Function.Injective Json.string := fun _ _ h => Json.string.inj h
    exact List.map_injective_iff.mpr hstring (Json.array.inj h)

end Json
open Json

theorem Route.faithful : Faithful Route.toJson where
  exact r := by simp [toJson]
  injective := by
    rintro ⟨⟩ ⟨⟩ h
    simpa [toJson, HttpMethod.name_inj, AccessTier.name_inj] using h

theorem RouteReport.faithful : Faithful RouteReport.toJson where
  exact r := by simpa [toJson] using fun route _ => Route.faithful.exact route
  injective := by
    rintro ⟨routes,path,stamp⟩ ⟨routes',path',stamp'⟩ h
    obtain ⟨rfl,rfl,rfl⟩ : routes = routes' ∧ stamp = stamp' ∧ path = path' := by
      simpa [toJson, Route.faithful.map_eq_iff] using h
    rfl

theorem Component.faithful : Faithful Component.toJson where
  exact c := by simp [toJson, faithful_strings.exact]
  injective := by
    rintro ⟨⟩ ⟨⟩ h
    simpa [toJson, ExecutionContext.name_inj, faithful_strings.injective.eq_iff] using h

theorem DirectoryCount.faithful : Faithful DirectoryCount.toJson where
  exact d := by simp [toJson]
  injective := by
    rintro ⟨⟩ ⟨⟩ h
    simpa [toJson] using h

theorem ComponentReport.faithful : Faithful ComponentReport.toJson where
  exact r := by
    have hcomponents : ∀ c ∈ r.components, c.toJson.Exact := fun c _ => Component.faithful.exact c
    have hdirectories : ∀ d ∈ r.directories, d.toJson.Exact := fun d _ => DirectoryCount.faithful.exact d
    simpa [toJson] using ⟨hcomponents,hdirectories⟩
  injective := by
    rintro ⟨components,directories,path,stamp⟩ ⟨components',directories',path',stamp'⟩ h
    obtain ⟨rfl,rfl,rfl,rfl⟩ :
        components = components' ∧ directories = directories' ∧ stamp = stamp' ∧ path = path' := by
      simpa [toJson, Component.faithful.map_eq_iff, DirectoryCount.faithful.map_eq_iff] using h
    rfl

namespace Schema

theorem Field.faithful : Faithful Field.toJson where
  exact f := by simp [toJson]
  injective := by
    rintro ⟨⟩ ⟨⟩ h
    simpa [toJson] using h

theorem Entity.faithful : Faithful Entity.toJson where
  exact e := by simpa [toJson] using fun f _ => Field.faithful.exact f
  injective := by
    rintro ⟨⟩ ⟨⟩ h
    simpa [toJson, Field.faithful.map_eq_iff] using h

theorem Relationship.faithful : Faithful Relationship.toJson where
  exact r := by simp [toJson]
  injective := by
    rintro ⟨⟩ ⟨⟩ h
    simpa [toJson, Cardinality.name_inj] using h

end Schema

theorem SchemaReport.faithful : Faithful SchemaReport.toJson where
  exact r := by
    have hentities : ∀ e ∈ r.entities, e.toJson.Exact := fun e _ => Schema.Entity.faithful.exact e
    have hrelationships : ∀ l ∈ r.relationships, l.toJson.Exact :=
      fun l _ => Schema.Relationship.faithful.exact l
    simpa [toJson] using ⟨hentities,hrelationships⟩
  injective := by
    rintro ⟨entities,links,file,path,stamp⟩ ⟨entities',links',file',path',stamp'⟩ h
    obtain ⟨rfl,rfl,rfl,rfl,rfl⟩ :
        entities = entities' ∧ links = links' ∧ file = file' ∧ stamp = stamp' ∧ path = path' := by
      simpa [toJson, Schema.Entity.faithful.map_eq_iff, Schema.Relationship.faithful.map_eq_iff] using h
    rfl

namespace Graph

theorem Node.faithful : Faithful Node.toJson where
  exact n := by simp [toJson]
  injective := by
    rintro ⟨⟩ ⟨⟩ h
    simpa [toJson, Source.Role.name_inj] using h

theorem Edge.faithful : Faithful Edge.toJson where
  exact e := by simp [toJson]
  injective := by
    rintro ⟨⟩ ⟨⟩ h
    simpa [toJson] using h

theorem Cluster.faithful : Faithful Cluster.toJson where
  exact c := by simp [toJson, faithful_strings.exact]
  injective := by
    rintro ⟨⟩ ⟨⟩ h
    simpa [toJson, faithful_strings.injective.eq_iff] using h

end Graph

theorem ImportGraph.faithful : Faithful ImportGraph.toJson where
  exact g := by
    have hnodes : ∀ n ∈ g.nodes, n.toJson.Exact := fun n _ => Graph.Node.faithful.exact n
    have hedges : ∀ e ∈ g.edges, e.toJson.Exact := fun e _ => Graph.Edge.faithful.exact e
    have hclusters : ∀ c ∈ g.clusters, c.toJson.Exact := fun c _ => Graph.Cluster.faithful.exact c
    simpa [toJson] using ⟨hnodes,hedges,hclusters⟩
  injective := by
    rintro ⟨nodes,edges,clusters,path,stamp⟩ ⟨nodes',edges',clusters',path',stamp'⟩ h
    obtain ⟨rfl,rfl,rfl,rfl,rfl⟩ :
        nodes = nodes' ∧ edges = edges' ∧ clusters = clusters' ∧ stamp = stamp' ∧ path = path' := by
      simpa [toJson, Graph.Node.faithful.map_eq_iff, Graph.Edge.faithful.map_eq_iff,
        Graph.Cluster.faithful.map_eq_iff] using h
    rfl

namespace Analysis

theorem faithful : Faithful toJson where
  exact a := by
    simp [toJson, membersBeforeName, exact_ofOption, RouteReport.faithful, ComponentReport.faithful,
      SchemaReport.faithful, ImportGraph.faithful]
  injective := by
    rintro ⟨path,name,stamp,routes,components,schema,graph⟩
      ⟨path',name',stamp',routes',components',schema',graph'⟩ h
    -- no report is an object that could be taken for an absent one
    have hroutes := RouteReport.faithful.ofOption_eq_iff (fun _ => nofun) routes routes'
    have hcomponents := ComponentReport.faithful.ofOption_eq_iff (fun _ => nofun) components components'
    have hschema := SchemaReport.faithful.ofOption_eq_iff (fun _ => nofun) schema schema'
    have hgraph := ImportGraph.faithful.ofOption_eq_iff (fun _ => nofun) graph graph'
    obtain ⟨rfl,rfl,rfl,rfl,rfl,rfl,rfl⟩ : routes = routes' ∧ components = components' ∧
        schema = schema' ∧ graph = graph' ∧ path = path' ∧ name = name' ∧ stamp = stamp' := by
      simpa [toJson, membersBeforeName, hroutes, hcomponents, hschema, hgraph, and_assoc] using h
    rfl

/-- The text of an analysis is that of no other one, whatever its strings, numbers and lists are and
whichever of its parts are absent. -/
theorem toJson_render_eq_iff (a b : Analysis String) : a.toJson.render = b.toJson.render ↔ a = b :=
  faithful.render_eq_iff

end Analysis

end WebAtlas
