import WebAtlas.Text.Scan
import WebAtlas.Path.Basic

/-! # Settings

The values that steer a scan and their defaults. Lists are written in one text with commas.
-/
namespace WebAtlas

structure Settings where
  /-- Most source files that the import graph takes in. -/
  maxFiles : Int := 500
  /-- Deepest directory below a start that is entered. -/
  maxDepth : Int := 64
  extraIgnoredDirectories : String := ""
  /-- The import specifiers that are read from the project root start with this. -/
  aliasPrefix : String := "@/"
  entityKeywords : String := "model,entity"
  outputDirectory : String := "public/data"
  apiHost : String := "localhost"
  apiPort : Int := 8000
  logLevel : String := "INFO"
  logFile : String := ""
deriving DecidableEq, Repr

namespace Settings

/-- The parts between commas, without blanks around them and without empty ones. -/
def commaList (text : String) : List String :=
  ((Text.splitOn ',' text).map Text.trim).filter (· ≠ "")

def extraIgnoredList (s : Settings) : List String := commaList s.extraIgnoredDirectories

def entityKeywordList (s : Settings) : List String := commaList s.entityKeywords

/-- The directory of the log file, when there is one. -/
def logDirectory? (s : Settings) : Option Path :=
  if s.logFile = "" then none else some (Path.parse s.logFile).parent

end Settings

end WebAtlas
