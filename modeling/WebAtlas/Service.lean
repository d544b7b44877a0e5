import WebAtlas.Wire

/-! # HTTP service

Four endpoints that answer requests with JSON: liveness, analysis, metrics and the text of one file. A
request is answered from the file system as it is; nothing is kept between requests. How a request
reaches an endpoint, and what is sent for what the endpoint gives or raises, is up to a web framework.
-/
namespace WebAtlas.Service

structure Fields where
  projectPath : Option String
  filePath : Option String
deriving DecidableEq, Repr

/-- What an endpoint raises instead of giving a value. -/
inductive Raised
  | http (status : Nat) (detail : String)
  | fault (cause : Fault)
  /-- The id of a hub that is no node. -/
  | unknownNode (id : String)
deriving DecidableEq, Repr

abbrev Handling (α : Type) := Reporting Raised α

inductive Value
  | json (value : Json)
  | analysis (value : Analysis CodePoints)

/-- The JSON of a value; none for an analysis with a name that is no text. -/
def Value.json? : Value → Option Json
  | .json value => some value
  | .analysis value => value.text?.map Analysis.toJson

inductive Endpoint
  | health
  | analyze
  | metrics
  | fileView
deriving DecidableEq, Repr

def Endpoint.method : Endpoint → String
  | .health => "GET"
  | .analyze | .metrics | .fileView => "POST"

def Endpoint.path : Endpoint → String
  | .health => "/api/health"
  | .analyze => "/api/analyze"
  | .metrics => "/api/metrics"
  | .fileView => "/api/read-file"

def component : String := "api_server"

def version : String := "0.1.0"

def healthJson : Json := .object [("status", .string "ok"), ("version", .string version)]

def analysis (fs : FileSystem) (room : Nat) (settings : Settings) (stamp : String)
    (project : Option String) : Handling (Analysis CodePoints) := do
  match Project.validate fs project with
  | .error (.projectPath reason) => throw (.http 400 reason.message)
  | .error fault => throw (.fault fault)
  | .ok root =>
    let (outcome, log) := (Analysis.run fs room settings {} stamp root).outcome
    Reporting.absorb log
    match outcome with
    | .ok analysis => return analysis
    | .error fault =>
      Reporting.report .error component s!"Analysis error: {fault.message}"
      throw (.http 500 (if fault.message = "" then "Analysis failed" else fault.message))

def metricsJson {Name : Type} (a : Analysis Name) (health : Health) : Json :=
  let importance := match a.graph with
    | some g => FileImportance.ofGraph g.nodes g.edges
    | none => []
  .object [("health", health.toJson), ("fileImportance", .array (importance.map (·.toJson)))]

def metrics (fs : FileSystem) (room : Nat) (settings : Settings) (stamp : String)
    (project : Option String) : Handling Json := do
  let analysis ← analysis fs room settings stamp project
  match Health.ofAnalysis analysis with
  | .ok health => return metricsJson analysis health
  | .error id => throw (.unknownNode id)

def fileView (fs : FileSystem) : Fields → Handling Json
  | ⟨none, _⟩ | ⟨_, none⟩ | ⟨some "", _⟩ | ⟨_, some ""⟩ =>
    throw (.http 400 "filePath and projectPath are required")
  | ⟨some project, some file⟩ => do
    match (Project.validate fs (some project)).bind fun root => FileView.read fs root.text file with
    | .ok view => return view.toJson
    | .error (.projectPath reason) => throw (.http 400 reason.message)
    | .error .outsideProject => throw (.http 403 Fault.outsideProject.message)
    | .error (.sourceMissing request) => throw (.http 404 (Fault.sourceMissing request).message)
    | .error (.file e) =>
      Reporting.report .error component s!"Error reading file: {e.message}"
      throw (.http 500 "Failed to read file")
    | .error fault => throw (.fault fault)

def handle (fs : FileSystem) (room : Nat) (settings : Settings) (stamp : String) (fields : Fields) :
    Endpoint → Handling Value
  | .health => return .json healthJson
  | .analyze => return .analysis (← analysis fs room settings stamp fields.projectPath)
  | .metrics => return .json (← metrics fs room settings stamp fields.projectPath)
  | .fileView => return .json (← fileView fs fields)

/-- A web framework, as far as the service depends on it. -/
structure Framework (Request Response : Type) where
  method : Request → String
  path : Request → String
  /-- The fields that the body of a request gives, if they are of the declared types. -/
  fields? : Request → Option Fields
  /-- The endpoint that a request is passed on to. -/
  route : Request → Option (Endpoint × Fields)
  /-- The answer to a request that is not passed on. -/
  refusal : Request → Response
  sent : Value → Response
  raised : Raised → Response
  status : Response → Nat
  detail? : Response → Option String

/-- What the service relies on in a framework. -/
structure Framework.Laws {Request Response : Type} (f : Framework Request Response) : Prop where
  /-- A request with the method and the path of an endpoint, and with fit fields, gets there. -/
  routes : ∀ request endpoint fields, f.method request = endpoint.method →
    f.path request = endpoint.path → f.fields? request = some fields →
    f.route request = some (endpoint, fields)
  /-- An HTTP error is answered with its status and its detail. -/
  raises : ∀ status detail, f.status (f.raised (.http status detail)) = status ∧
    f.detail? (f.raised (.http status detail)) = some detail

/-- Answers a request and tells what was logged on the way. -/
def answer {Request Response : Type} (f : Framework Request Response) (fs : FileSystem) (room : Nat)
    (settings : Settings) (stamp : String) (request : Request) : Response × Log :=
  match f.route request with
  | none => (f.refusal request, [])
  | some (endpoint, fields) =>
    match (handle fs room settings stamp fields endpoint).outcome with
    | (.ok value, log) => (f.sent value, log)
    | (.error raised, log) => (f.raised raised, log)

end WebAtlas.Service
