import WebAtlas.CommandLine.Run
import WebAtlas.Text.Utf8
import Std.Time.Format

/-! # The program

A run works on a picture of the disk: the directories on the way to the paths it is given, all of the
project outside ignored directories, and what links lead to. The command is then run on the picture,
and the directories and files that it made are made on the disk. Links are drawn with the real path
that they lead to, and links that lead nowhere are left out.
-/
namespace WebAtlas.Program

/-- A picture that is being taken, with the directories whose contents are in it. -/
structure Picture where
  fileSystem : FileSystem
  opened : List Location := []

def Picture.put (picture : Picture) (loc : Location) (entry : Entry) : Picture :=
  { picture with fileSystem := picture.fileSystem.put loc entry }

def Picture.putWay (picture : Picture) (loc : Location) : Picture :=
  (List.range loc.length).foldl (fun picture n => picture.put (loc.take (n + 1)) .directory) picture

def diskText (loc : Location) : String := "/" ++ "/".intercalate loc

def onDisk (loc : Location) : IO.FS.DirEntry := ⟨"/", diskText loc⟩

def kindOnDisk (loc : Location) : IO (Option IO.FS.FileType) := do
  let .ok found ← (onDisk loc).path.symlinkMetadata.toBaseIO | return none
  return some found.type

def realLocation? (text : String) : IO (Option Location) := do
  let .ok real ← (IO.FS.realPath text).toBaseIO | return none
  return some (Path.parse real.toString).segments

def namesOnDisk (loc : Location) : IO (List String) := do
  let .ok found ← (onDisk loc).path.readDir.toBaseIO | return []
  return found.toList.map (·.fileName)

/-- Whether a run reads files of this name; the picture shows others as empty. -/
def isRead (name : String) : Bool :=
  Source.isSource ⟨.relative, [name]⟩ || name == "package.json" || name == "schema.prisma"

def Picture.putFile (picture : Picture) (loc : Location) (reading : Bool) : IO Picture := do
  if !reading then
    return if (picture.fileSystem.entry? loc).isSome then picture else picture.put loc (.file [])
  let .ok bytes ← (IO.FS.readBinFile (diskText loc)).toBaseIO | return picture
  return picture.put loc (.file bytes.toList)

/-- Adds what lies at a location and what that leads to; also gives the directory that it is or
leads to. -/
def Picture.look (picture : Picture) (loc : Location) : IO (Picture × Option Location) := do
  let name := loc.getLast?.getD ""
  match ← kindOnDisk loc with
  | some .dir => return (picture.put loc .directory, some loc)
  | some .file => return (← picture.putFile loc (isRead name), none)
  | some .symlink =>
    match ← realLocation? (diskText loc) with
    | none => return (picture, none)
    | some target =>
      let picture := (picture.putWay target.dropLast).put loc (.link (diskText target))
      match ← kindOnDisk target with
      | some .dir => return (picture.putWay target, some target)
      | some .file =>
        return (← picture.putFile target (isRead name || isRead (target.getLast?.getD "")), none)
      | _ => return (picture, none)
  | _ => return (picture, none)

/-- Adds what lies on the way along some segments, and gives the directory that they lead to. -/
def Picture.along : Picture → Location → List String → IO (Picture × Option Location)
  | picture, dir, [] => return (picture, some dir)
  | picture, dir, ".." :: rest => along picture dir.dropLast rest
  | picture, dir, segment :: rest => do
    match ← picture.look (dir ++ [segment]) with
    | (picture, some dir) => along picture dir rest
    | (picture, none) => return (picture, none)

/-- Adds what lies in a directory, and in the directories that it has or leads to, `levels` deep. -/
def Picture.below (ignored : List String) : Nat → Picture → Location → IO Picture
  | 0, picture, _ => return picture
  | levels + 1, picture, dir => do
    if dir ∈ picture.opened then return picture
    let mut picture := { picture with opened := dir :: picture.opened }
    for name in ← namesOnDisk dir do
      let (seen, directory) ← picture.look (dir ++ [name])
      picture := seen
      if let some directory := directory then
        if !ignored.contains name then picture ← below ignored levels picture directory
    return picture

def Picture.take (picture : Picture) (ignored : List String) (levels : Nat) (text : String) :
    IO Picture := do
  let path := Path.parse text
  match ← picture.along (picture.fileSystem.origin path) path.segments with
  | (picture, some dir) => picture.below ignored levels dir
  | (picture, none) => return picture

def picture (settings : Settings) (texts : List String) : IO FileSystem := do
  let working := (← realLocation? ".").getD []
  let mut picture := Picture.putWay ⟨⟨[], working⟩, []⟩ working
  if settings.logFile ≠ "" then picture ← picture.take [] 0 settings.logFile
  if let .ok arguments := CommandLine.arguments texts then
    let ignored := settings.walkPolicy.ignored
    picture ← picture.take ignored FileSystem.pathLimit arguments.projectPath
    picture ← picture.take ignored 1 (arguments.outputDirectory.getD settings.outputDirectory)
  return picture.fileSystem

/-- Makes on the disk what is new between two pictures, in the order in which it was made. -/
def carryOut (before after : FileSystem) : IO Unit := do
  for (loc, entry) in after.entries do
    if before.entry? loc ≠ some entry then
      match entry with
      | .directory => IO.FS.createDir (diskText loc)
      | .file bytes => IO.FS.writeBinFile (diskText loc) ⟨bytes.toArray⟩
      | .link _ => pure ()

/-- The variables of the environment, where the system shows them as a file. -/
def environment : IO (List (String × String)) := do
  let .ok bytes ← (IO.FS.readBinFile "/proc/self/environ").toBaseIO | return []
  let texts := Text.splitOn '\x00' (String.ofList (Utf8.decode bytes.toList))
  return texts.filterMap fun text =>
    match CommandLine.splitEquals text.toList with
    | (name, some value) => some (String.ofList name, String.ofList value)
    | (_, none) => none

def settingsOf (environment : List (String × String)) : Option ByteArray → Except String Settings
  | none => (Settings.ofEnvironment environment none).mapError Settings.badIntegersMessage
  | some bytes =>
    match Utf8.decodeStrict? bytes.toList with
    | none => .error ".env is not UTF-8"
    | some text =>
      (Settings.ofEnvironment environment (some (Utf8.unifyLineEnds text))).mapError
        Settings.badIntegersMessage

def settings : IO (Except String Settings) := do
  let file ← (IO.FS.readBinFile ".env").toBaseIO
  return settingsOf (← environment) file.toOption

/-- The levels of a log by their names, from the least to the most severe. -/
def levels : List (String × Nat) :=
  [("TRACE", 5), ("DEBUG", 10), ("INFO", 20), ("SUCCESS", 25), ("WARNING", 30), ("ERROR", 40),
   ("CRITICAL", 50)]

def shows (level : String) : Except String (Severity → Bool) :=
  match levels.lookup level with
  | none => .error s!"Level '{level}' does not exist"
  | some least => .ok fun severity => (levels.lookup severity.name).any (least ≤ ·)

/-- Makes an empty file with the directories on its way, unless there is one already. -/
def openLogFile (fs : FileSystem) (text : String) : FileSystem × Except String Unit :=
  let file := (Path.parse text).absolute fs.workingDirectory
  match fs.makeDirectories file.parent with
  | (made, .error e) => (made, .error e.message)
  | (made, .ok ()) =>
    match made.locate true file with
    | .ok (.present _ (.file _)) => (made, .ok ())
    | _ =>
      match made.write file [] with
      | .ok written => (written, .ok ())
      | .error fault => (made, .error (FileError.message ⟨fault, file⟩))

/-- How this program keeps its log: a file by the name that it is given. -/
def logging : CommandLine.Logging := ⟨shows, openLogFile⟩

/-- How deep documents may nest. -/
def documentRoom : Nat := 950

/-- What comes before a run: the directories that the settings name, and logging at their level. -/
def setUp (fs : FileSystem) (settings : Settings) :
    FileSystem × Except CommandLine.Crash (Severity → Bool) :=
  match settings.ensureDirectories fs with
  | (made, .error e) => (made, .error (.fault (.file e)))
  | (made, .ok ()) => CommandLine.setUp logging made settings settings.logLevel

def usage : String :=
  "usage: archscope [-h] [--output-dir OUTPUT_DIR] [--log-level LOG_LEVEL] project_path\n"

def help : String := usage ++
  "\narchscope - analyze a project's architecture\n\n" ++
  "positional arguments:\n  project_path          Path to the project directory\n\n" ++
  "options:\n  -h, --help            show this help message and exit\n" ++
  "  --output-dir OUTPUT_DIR\n                        Directory for JSON output\n" ++
  "  --log-level LOG_LEVEL\n                        Log level\n"

def padded (width : Nat) (text : String) : String :=
  text ++ String.ofList (List.replicate (width - text.length) ' ')

def logLine (time : String) (record : LogRecord) : String :=
  s!"{time} | {padded 8 record.severity.name} | {record.component} - {record.message}\n"

def level (settings : Settings) (texts : List String) : String :=
  match CommandLine.arguments texts with
  | .ok arguments => arguments.logLevel.getD settings.logLevel
  | .error _ => settings.logLevel

def logLines (shown : Severity → Bool) (time : String) (log : Log) : List String :=
  (log.filter (shown ·.severity)).map (logLine time)

def showLog (logFile : String) (lines : List String) : IO Unit := do
  lines.forM fun line => IO.eprint line
  if logFile ≠ "" then
    let file ← IO.FS.Handle.mk logFile .append
    lines.forM file.putStr

def conclude : CommandLine.Ending → IO UInt32
  | .exit code => return code.toUInt32
  | .refused .help => do
    IO.print help
    return 0
  | .refused .usage => do
    IO.eprint usage
    IO.eprintln "archscope: error: these arguments cannot be used"
    return 2
  | .crash cause => do
    IO.eprintln cause.message
    return 1

def runWith (settings : Settings) (shown : Severity → Bool) (texts : List String) : IO UInt32 := do
  let now := Std.Time.DateTime.ofTimestamp (← Std.Time.Timestamp.now) .UTC
  let stamp := now.format "uuuu-MM-dd'T'HH:mm:ss.SSSSSSxxx"
  let before ← picture settings texts
  match setUp before settings with
  | (opened, .error crash) =>
    carryOut before opened
    conclude (.crash crash)
  | (opened, .ok _) =>
    let outcome := CommandLine.run logging documentRoom opened settings stamp texts
    carryOut before outcome.fileSystem
    IO.print outcome.output
    let time := now.format "uuuu-MM-dd HH:mm:ss"
    showLog settings.logFile (logLines shown time outcome.log)
    conclude outcome.ending

def run (texts : List String) : IO UInt32 := do
  match ← settings with
  | .error problem =>
    IO.eprintln problem
    return 1
  | .ok settings =>
    match logging.shows settings.logLevel, logging.shows (level settings texts) with
    | .error message, _ | _, .error message => conclude (.crash (.logging message))
    | .ok _, .ok shown => runWith settings shown texts

end WebAtlas.Program

def main (texts : List String) : IO UInt32 := WebAtlas.Program.run texts
