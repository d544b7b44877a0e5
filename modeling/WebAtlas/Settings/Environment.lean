import WebAtlas.Settings.Basic
import WebAtlas.Settings.Integer
import WebAtlas.Settings.EnvFile
import WebAtlas.Text.Lowercase
import WebAtlas.FileSystem.Edit

/-! # Settings from the environment

A setting is given by a variable of its name, in any case, after a common start; the environment wins
over a file of assignments, and what neither gives has its default.
-/
namespace WebAtlas.Settings

def variableStart : String := "archscope_"

/-- The value of the last assignment to a name that is compared in lowercase. -/
def lastValue? (assignments : List EnvFile.Assignment) (name : String) : Option String :=
  ((assignments.reverse.find? fun a => Text.lowercase a.1 == name).map (·.2)).join

/-- Integer settings whose given text is no integer. -/
abbrev BadIntegers := List String

def badIntegersMessage (names : BadIntegers) : String :=
  "; ".intercalate ((names.mergeSort fun a b => a ≤ b).map (· ++ ": int_parsing"))

/-- Settings from the given text of each field, `none` for a field that is not given. -/
def ofFields (given : String → Option String) : Except BadIntegers Settings :=
  let defaults : Settings := {}
  let text (name default : String) := (given name).getD default
  let number (name : String) (default : Int) : Option Int :=
    match given name with
    | none => some default
    | some text => integer? text
  match number "max_files" defaults.maxFiles, number "max_depth" defaults.maxDepth,
      number "api_port" defaults.apiPort with
  | some maxFiles, some maxDepth, some apiPort =>
    .ok {
      maxFiles, maxDepth, apiPort
      extraIgnoredDirectories := text "extra_ignored_dirs" defaults.extraIgnoredDirectories
      aliasPrefix := text "alias_prefix" defaults.aliasPrefix
      entityKeywords := text "schema_entity_keywords" defaults.entityKeywords
      outputDirectory := text "output_dir" defaults.outputDirectory
      apiHost := text "api_host" defaults.apiHost
      logLevel := text "log_level" defaults.logLevel
      logFile := text "log_file" defaults.logFile }
  | maxFiles, maxDepth, apiPort =>
    .error ((if maxFiles.isNone then ["max_files"] else []) ++
      (if maxDepth.isNone then ["max_depth"] else []) ++
      (if apiPort.isNone then ["api_port"] else []))

def ofEnvironment (environment : List (String × String)) (file : Option (List Char)) :
    Except BadIntegers Settings :=
  let fromFile := (file.map (EnvFile.resolved environment)).getD []
  ofFields fun name =>
    (lastValue? (environment.map fun (n, v) => (n, some v)) (variableStart ++ name)).or
      (lastValue? fromFile (variableStart ++ name))

def ensureDirectories (s : Settings) (fs : FileSystem) : FileSystem × Except FileError Unit :=
  match s.logDirectory? with
  | none => (fs, .ok ())
  | some dir => fs.makeDirectories dir

end WebAtlas.Settings
