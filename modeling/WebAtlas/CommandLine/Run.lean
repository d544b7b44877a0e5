import WebAtlas.CommandLine.Arguments
import WebAtlas.FileSystem.Edit
import WebAtlas.Json.Printer
import WebAtlas.Settings.Environment
import WebAtlas.Wire

/-! # The command

One run analyses a project, writes its reports as JSON files into the output directory and says on
standard output how much was found. Reports that are absent are not written, and older files stay.
-/
namespace WebAtlas.CommandLine

/-- A library that keeps the log, as far as a run depends on it. What it writes into its file later is
not followed. -/
structure Logging where
  /-- Which records a level lets through, or what is wrong with its name. -/
  shows : String → Except String (Severity → Bool)
  /-- Starts to log into a file, or tells why that fails. -/
  openFile : FileSystem → String → FileSystem × Except String Unit

/-- Why a run breaks off without an exit code. -/
inductive Crash
  | fault (cause : Fault)
  | logging (message : String)
deriving DecidableEq, Repr

def Crash.message : Crash → String
  | .fault cause => cause.message
  | .logging message => message

inductive Ending
  | exit (code : Nat)
  | refused (reason : Refusal)
  | crash (cause : Crash)
deriving DecidableEq, Repr

structure Outcome where
  ending : Ending
  output : String
  fileSystem : FileSystem
  log : Log

def partFiles {Name : Type} (a : Analysis Name) : List (String × Json) :=
  (a.routes.map fun r => ("routes.json", r.toJson)).toList ++
    (a.components.map fun r => ("components.json", r.toJson)).toList ++
    (a.schema.map fun r => ("schema.json", r.toJson)).toList ++
    (a.graph.map fun g => ("dependencies.json", g.toJson)).toList

def reportFiles (a : Analysis String) : List (String × Json) :=
  partFiles a ++ [("analysis.json", a.toJson)]

def encoded (files : List (String × Json)) : List (String × List UInt8) :=
  files.map fun (name, value) => (name, value.render.toUTF8.toList)

/-- What there is of a whole report when its name turns out to be no text. -/
def unfinished {Name : Type} (a : Analysis Name) : List UInt8 :=
  let opening := (Json.renderAt 0 (.object a.membersBeforeName)).dropLast.dropLast
  (String.ofList (opening ++ [','] ++ Json.lineStart 1) ++ "\"projectName\": ").toUTF8.toList

/-- Why a name that is no text cannot be written. Places are counted in the quoted name. -/
def surrogatesMessage (name : CodePoints) : String :=
  let before := name.points.takeWhile fun point => decide point.isValidChar
  let bad := (name.points.drop before.length).takeWhile fun point => !decide point.isValidChar
  let start := (Json.quote (String.ofList (before.map Char.ofNat))).length - 1
  let what := match bad with
    | [point] =>
      "character '\\u" ++ String.ofList (Text.hexDigits 4 point) ++ s!"' in position {start}"
    | _ => s!"characters in position {start}-{start + bad.length - 1}"
  "'utf-8' codec can't encode " ++ what ++ ": surrogates not allowed"

def writeFiles (dir : Path) :
    FileSystem → List (String × List UInt8) → FileSystem × Except FileError Unit
  | fs, [] => (fs, .ok ())
  | fs, (name, bytes) :: files =>
    match fs.write (dir.child name) bytes with
    | .ok written => writeFiles dir written files
    | .error fault => (fs, .error ⟨fault, dir.child name⟩)

/-- Writes the reports of an analysis into a directory, which is made if it is missing, or tells why
that fails. -/
def writeReports (fs : FileSystem) (dir : Path) (a : Analysis CodePoints) :
    FileSystem × Except String Unit :=
  match fs.makeDirectories dir with
  | (made, .error e) => (made, .error e.message)
  | (made, .ok ()) =>
    match a.text? with
    | some a =>
      let (written, outcome) := writeFiles dir made (encoded (reportFiles a))
      (written, outcome.mapError (·.message))
    | none =>
      let files := encoded (partFiles a) ++ [("analysis.json", unfinished a)]
      match writeFiles dir made files with
      | (written, .error e) => (written, .error e.message)
      | (written, .ok ()) => (written, .error (surrogatesMessage a.projectName))

def summary {Name : Type} (a : Analysis Name) : String :=
  let sizes := Health.Sizes.ofAnalysis a
  s!"API Routes: {sizes.routeCount}\nComponents: {sizes.components.length}\n" ++
    s!"Entities:   {sizes.entityCount}\nFiles:      {sizes.nodes.length}\nImports:    {sizes.edges.length}\n"

def errorRecord (message : String) : LogRecord := ⟨.error, "archscope", message⟩

def analyse (room : Nat) (fs : FileSystem) (settings : Settings) (stamp : String)
    (arguments : Arguments) : Outcome :=
  match Project.validate fs (some arguments.projectPath) with
  | .error (.projectPath reason) =>
    ⟨.exit 1, "", fs, [errorRecord s!"Error: {reason.message}"]⟩
  | .error fault => ⟨.crash (.fault fault), "", fs, []⟩
  | .ok root =>
    let opening := s!"\nAnalyzing codebase: {root.text}\n\n"
    match (Analysis.run fs room settings {} stamp root).outcome with
    | (.error fault, log) =>
      ⟨.exit 1, opening, fs, log ++ [errorRecord s!"Analysis failed: {fault.message}"]⟩
    | (.ok analysis, log) =>
      let output := opening ++ summary analysis
      let dir := Path.parse (arguments.outputDirectory.getD settings.outputDirectory)
      match writeReports fs dir analysis with
      | (written, .error problem) =>
        ⟨.exit 1, output, written, log ++ [errorRecord s!"Analysis failed: {problem}"]⟩
      | (written, .ok ()) =>
        match written.resolve dir with
        | .error fault => ⟨.crash (.fault fault), output, written, log⟩
        | .ok real =>
          ⟨.exit 0, output ++ s!"\nAnalysis complete! Output written to {real.text}\n", written, log⟩

/-- Sets up logging for a level, into the log file as well if there is one. -/
def setUp (logging : Logging) (fs : FileSystem) (settings : Settings) (level : String) :
    FileSystem × Except Crash (Severity → Bool) :=
  match logging.shows level with
  | .error message => (fs, .error (.logging message))
  | .ok shown =>
    if settings.logFile = "" then (fs, .ok shown)
    else match fs.makeDirectories (Path.parse settings.logFile).parent with
      | (made, .error e) => (made, .error (.fault (.file e)))
      | (made, .ok ()) =>
        match logging.openFile made settings.logFile with
        | (opened, .error message) => (opened, .error (.logging message))
        | (opened, .ok ()) => (opened, .ok shown)

/-- Runs the command with some arguments. Logging is set up anew for a level other than the one of the
settings. -/
def run (logging : Logging) (room : Nat) (fs : FileSystem) (settings : Settings) (stamp : String)
    (texts : List String) : Outcome :=
  match arguments texts with
  | .error reason => ⟨.refused reason, "", fs, []⟩
  | .ok arguments =>
    let level := arguments.logLevel.getD settings.logLevel
    if level = settings.logLevel then analyse room fs settings stamp arguments
    else match setUp logging fs settings level with
      | (opened, .error crash) => ⟨.crash crash, "", opened, []⟩
      | (opened, .ok shown) =>
        let outcome := analyse room opened settings stamp arguments
        { outcome with log := outcome.log.filter (shown ·.severity) }

end WebAtlas.CommandLine
