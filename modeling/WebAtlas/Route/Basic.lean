import WebAtlas.Route.Method
import WebAtlas.Route.Access
import WebAtlas.Path.Basic

/-! # Routes

An API route is one method of one handler file. Its URL path starts at the first `api` directory on
the way to the file, and its feature is the segment after that.
-/
namespace WebAtlas

structure Route where
  path : String
  method : HttpMethod
  feature : String
  access : AccessTier
  sourceFile : String
deriving DecidableEq, Repr

structure RouteReport where
  routes : List Route
  projectPath : String
  generatedAt : String
deriving DecidableEq, Repr

namespace Route

def pathOf (relativeName : String) : String :=
  let directories := (Path.pieces relativeName).dropLast
  let fromApi := directories.dropWhile (· ≠ "api")
  "/" ++ "/".intercalate (if fromApi.isEmpty then directories else fromApi)

/-- The segment after a leading `api`, else the first segment, else `root`. -/
def featureOf (path : String) : String :=
  match (Path.pieces path).filter (· ≠ "") with
  | [] => "root"
  | [first] => first
  | first :: second :: _ => if first = "api" then second else first

def ofHandler (sourceFile text : String) : List Route :=
  let path := pathOf sourceFile
  (HttpMethod.detect text).map fun method =>
    ⟨path, method, featureOf path, AccessTier.infer text, sourceFile⟩

/-- The order of routes: by path, then by method name. -/
def before (a b : Route) : Bool :=
  if a.path = b.path then a.method.name ≤ b.method.name else a.path < b.path

end Route

end WebAtlas
