import WebAtlas.Json.Basic
import WebAtlas.Metrics.Health
import WebAtlas.Project.FileView

/-! # Wire format

The JSON values of all reports. A report that is absent is `null`.
-/
namespace WebAtlas

def Route.toJson (r : Route) : Json :=
  .object [("path", .string r.path), ("method", .string r.method.name),
    ("feature", .string r.feature), ("authTier", .string r.access.name),
    ("sourceFile", .string r.sourceFile)]

def RouteReport.toJson (r : RouteReport) : Json :=
  .object [("routes", .array (r.routes.map Route.toJson)), ("generatedAt", .string r.generatedAt),
    ("projectPath", .string r.projectPath)]

def Component.toJson (c : Component) : Json :=
  .object [("name", .string c.name), ("path", .string c.path), ("directory", .string c.directory),
    ("executionContext", .string c.context.name), ("dependencyNames", .strings c.dependencyNames),
    ("lineCount", .int c.lineCount)]

def DirectoryCount.toJson (d : DirectoryCount) : Json :=
  .object [("path", .string d.path), ("label", .string d.label), ("componentCount", .int d.count)]

def ComponentReport.toJson (r : ComponentReport) : Json :=
  .object [("components", .array (r.components.map Component.toJson)),
    ("directories", .array (r.directories.map DirectoryCount.toJson)),
    ("generatedAt", .string r.generatedAt), ("projectPath", .string r.projectPath)]

namespace Schema

def Field.toJson (f : Field) : Json :=
  .object [("name", .string f.name), ("typeName", .string f.typeName),
    ("isRelation", .bool f.isRelation), ("isOptional", .bool f.isOptional),
    ("isArray", .bool f.isArray)]

def Entity.toJson (e : Entity) : Json :=
  .object [("name", .string e.name), ("fields", .array (e.fields.map Field.toJson))]

def Relationship.toJson (r : Relationship) : Json :=
  .object [("fromEntity", .string r.source), ("toEntity", .string r.target),
    ("cardinality", .string r.cardinality.name), ("fieldName", .string r.fieldName)]

end Schema

def SchemaReport.toJson (r : SchemaReport) : Json :=
  .object [("entities", .array (r.entities.map Schema.Entity.toJson)),
    ("relationships", .array (r.relationships.map Schema.Relationship.toJson)),
    ("schemaFile", .string r.schemaFile), ("generatedAt", .string r.generatedAt),
    ("projectPath", .string r.projectPath)]

namespace Graph

def Node.toJson (n : Node) : Json :=
  .object [("id", .string n.id), ("displayName", .string n.displayName),
    ("directory", .string n.directory), ("kind", .string n.role.name)]

def Edge.toJson (e : Edge) : Json :=
  .object [("sourceNodeId", .string e.source), ("targetNodeId", .string e.target)]

def Cluster.toJson (c : Cluster) : Json :=
  .object [("id", .string c.id), ("label", .string c.label), ("nodeIds", .strings c.nodeIds)]

end Graph

def ImportGraph.toJson (g : ImportGraph) : Json :=
  .object [("nodes", .array (g.nodes.map Graph.Node.toJson)),
    ("edges", .array (g.edges.map Graph.Edge.toJson)),
    ("clusters", .array (g.clusters.map Graph.Cluster.toJson)),
    ("generatedAt", .string g.generatedAt), ("projectPath", .string g.projectPath)]

/-- The members of an analysis that stand before its name. -/
def Analysis.membersBeforeName {Name : Type} (a : Analysis Name) : List (String × Json) :=
  [("routes", .ofOption RouteReport.toJson a.routes),
    ("components", .ofOption ComponentReport.toJson a.components),
    ("schema", .ofOption SchemaReport.toJson a.schema),
    ("dependencyGraph", .ofOption ImportGraph.toJson a.graph),
    ("projectPath", .string a.projectPath)]

def Analysis.toJson (a : Analysis String) : Json :=
  .object (a.membersBeforeName ++
    [("projectName", .string a.projectName), ("generatedAt", .string a.generatedAt)])

def FileImportance.toJson (i : FileImportance) : Json :=
  .object [("file", .string i.file), ("nodeId", .string i.nodeId),
    ("importedByCount", .int i.importedByCount), ("importsCount", .int i.importsCount),
    ("isHub", .bool i.isHub), ("isLeaf", .bool i.isLeaf), ("impactScore", .int i.impactScore)]

def Health.toJson (h : Health) : Json :=
  .object [("totalFiles", .int h.totalFiles), ("totalLines", .int h.totalLines),
    ("totalComponents", .int h.totalComponents), ("totalRoutes", .int h.totalRoutes),
    ("totalEntities", .int h.totalEntities), ("complexity", .string h.complexity),
    ("organization", .string h.organization), ("hubFiles", .strings h.hubFiles),
    ("isolatedFiles", .strings h.isolatedFiles),
    ("largestFiles", .array (h.largestFiles.map fun (file, lines) =>
      .object [("file", .string file), ("lines", .int lines)]))]

def FileView.toJson (v : FileView) : Json :=
  .object [("content", .string v.content), ("language", .string v.language),
    ("fileName", .string v.fileName), ("filePath", .string v.filePath), ("size", .int v.size),
    ("lines", .int v.lines)]

end WebAtlas
