import WebAtlas.FileSystem.Basic

/-! # Faults

The causes that end a scan of a project, the reading of one of its files or the check of a project
path, each with its message.
-/
namespace WebAtlas

/-- What is wrong with a project path. -/
inductive ProjectPathFault
  | required
  | missing (path : Path)
  | notDirectory (path : Path)
deriving DecidableEq, Repr

def ProjectPathFault.message : ProjectPathFault → String
  | .required => "Project path is required"
  | .missing p => s!"Path does not exist: {p.text}"
  | .notDirectory p => s!"Path is not a directory: {p.text}"

/-- The kinds of value that hold other values in a document. -/
inductive Container
  | array
  | object
deriving DecidableEq, Repr

inductive Fault
  | projectPath (reason : ProjectPathFault)
  | outsideProject
  | sourceMissing (request : String)
  | file (error : FileError)
  | linkLoop (path : Path)
  | nullByte
  | stackOverflow
  /-- A document whose containers are nested too deeply to be read. -/
  | nesting (container : Container)
deriving DecidableEq, Repr

def Fault.message : Fault → String
  | .projectPath reason => reason.message
  | .outsideProject => "Access denied: file is outside project directory"
  | .sourceMissing request => s!"File not found: {request}"
  | .file error => error.message
  | .linkLoop p => s!"Symlink loop from {Text.quoted p.text}"
  | .nullByte => FileFault.reason .nullByte
  | .stackOverflow => "maximum recursion depth exceeded while calling a Python object"
  | .nesting .array =>
    "maximum recursion depth exceeded while decoding a JSON array from a unicode string"
  | .nesting .object =>
    "maximum recursion depth exceeded while decoding a JSON object from a unicode string"

end WebAtlas
