import WebAtlas.Proofs.CommandLine.Reports
import WebAtlas.Proofs.FileSystem.Extension
import WebAtlas.Proofs.Graph.Build
import WebAtlas.Proofs.Project.Analysis
import WebAtlas.Proofs.Walk.Evaluation

/-! # Runs one after another

A run writes the reports of its own analysis, whatever has happened before it. What it does not write
stays: a file of a part that it has not found is still there when it is done.
-/
namespace WebAtlas.CommandLine
open FileSystem
variable {logging : Logging} {room : Nat} {fs : FileSystem} {settings : Settings} {stamp : String}
  {texts : List String} {given : Arguments}

/-- What a run relies on in a library that keeps the log. -/
structure Logging.Laws (logging : Logging) : Prop where
  /-- Opening a log file may make it, and keeps what is there. -/
  keeps : ∀ (fs : FileSystem) (file : String), fs.Extends (logging.openFile fs file).1

/-- What a run is about to write: the reports of an analysis, into a directory that has been made. -/
structure Writing where
  directory : Path
  fileSystem : FileSystem
  analysis : Analysis CodePoints

/-- The files that the reports of an analysis are written to; the last one breaks off at a name that is
no text. -/
def writtenFiles (a : Analysis CodePoints) : List (String × List UInt8) :=
  match a.text? with
  | some a => encoded (reportFiles a)
  | none => encoded (partFiles a) ++ [(wholeFile,unfinished a)]

/-- The file system that is analysed, which may have got a log file before. -/
def analysedSystem? (logging : Logging) (fs : FileSystem) (settings : Settings) (given : Arguments) :
    Option FileSystem :=
  let level := given.logLevel.getD settings.logLevel
  if level = settings.logLevel then some fs
  else match setUp logging fs settings level with
    | (_,.error _) => none
    | (opened,.ok _) => some opened

def analysis? (room : Nat) (fs : FileSystem) (settings : Settings) (stamp : String)
    (given : Arguments) : Option (Analysis CodePoints) :=
  match Project.validate fs (some given.projectPath) with
  | .error _ => none
  | .ok root => (Analysis.run fs room settings {} stamp root).outcome.1.toOption

def directory (settings : Settings) (given : Arguments) : Path :=
  Path.parse (given.outputDirectory.getD settings.outputDirectory)

/-- What a run gets to write, if it gets that far. -/
def writing? (logging : Logging) (room : Nat) (fs : FileSystem) (settings : Settings) (stamp : String)
    (texts : List String) : Option Writing :=
  (arguments texts).toOption.bind fun given =>
    (analysedSystem? logging fs settings given).bind fun analysed =>
      (analysis? room analysed settings stamp given).map fun a =>
        ⟨directory settings given,(analysed.makeDirectories (directory settings given)).1,a⟩

theorem writing?_eq (h : arguments texts = .ok given) : writing? logging room fs settings stamp texts =
    (analysedSystem? logging fs settings given).bind fun analysed =>
      (analysis? room analysed settings stamp given).map fun a =>
        ⟨directory settings given,(analysed.makeDirectories (directory settings given)).1,a⟩ := by
  unfold writing?
  rw [h]
  rfl

/-- A log file is made where there is none, and what is there is kept. -/
theorem extends_setUp (hl : logging.Laws) (level : String) :
    fs.Extends (setUp logging fs settings level).1 := by
  unfold setUp
  split
  · exact .refl fs
  · split
    · exact .refl fs
    · have hparents := @extends_makeDirectories fs (Path.parse settings.logFile).parent
      split
      · rename_i made e hm
        rwa [hm] at hparents
      · rename_i made hm
        rw [hm] at hparents
        have hopened := hparents.trans (hl.keeps made settings.logFile)
        split
        · rename_i opened message ho
          rwa [ho] at hopened
        · rename_i opened ho
          rwa [ho] at hopened

theorem extends_analysedSystem {analysed : FileSystem} (hl : logging.Laws)
    (h : analysedSystem? logging fs settings given = some analysed) : fs.Extends analysed := by
  have hsetUp := @extends_setUp logging fs settings hl (given.logLevel.getD settings.logLevel)
  unfold analysedSystem? at h
  dsimp only at h
  split at h
  · cases h
    exact .refl fs
  · split at h
    · cases h
    · rename_i opened shown hopened
      cases h
      rwa [hopened] at hsetUp

/-- What becomes of the file system while an analysis runs and is written. -/
theorem analyse_cases (room : Nat) (fs : FileSystem) (settings : Settings) (stamp : String)
    (given : Arguments) :
    analysis? room fs settings stamp given = none ∧
      (analyse room fs settings stamp given).fileSystem = fs ∧
      (analyse room fs settings stamp given).ending ≠ .exit 0 ∨
    ∃ a, analysis? room fs settings stamp given = some a ∧
      (analyse room fs settings stamp given).fileSystem =
        (writeReports fs (directory settings given) a).1 ∧
      ((analyse room fs settings stamp given).ending = .exit 0 →
        (writeReports fs (directory settings given) a).2 = .ok ()) := by
  unfold analyse analysis?
  cases Project.validate fs (some given.projectPath) with
  | error fault => cases fault <;> exact .inl ⟨rfl,rfl,by simp⟩
  | ok root =>
    dsimp only
    rcases (Analysis.run fs room settings {} stamp root).outcome with ⟨result,log⟩
    cases result with
    | error fault => exact .inl ⟨rfl,rfl,by simp⟩
    | ok a =>
      refine .inr ⟨a,rfl,?_⟩
      dsimp only [directory]
      rcases writeReports fs (Path.parse (given.outputDirectory.getD settings.outputDirectory)) a with
        ⟨written,result⟩
      cases result with
      | error e => exact ⟨rfl,by simp⟩
      | ok done =>
        cases done
        dsimp only
        split <;> exact ⟨rfl,fun _ => rfl⟩

/-- Writing the reports is writing their files, and it ends well for a name that is a text alone. -/
theorem writeReports_made {made : FileSystem} {dir : Path} (a : Analysis CodePoints)
    (h : fs.makeDirectories dir = (made,.ok ())) :
    (writeReports fs dir a).1 = (writeFiles dir made (writtenFiles a)).1 ∧
      ((writeReports fs dir a).2 = .ok () → a.text?.isSome ∧
        (writeFiles dir made (writtenFiles a)).2 = .ok ()) := by
  unfold writeReports writtenFiles wholeFile
  simp only [h]
  cases a.text? with
  | none =>
    dsimp only
    rcases writeFiles dir made (encoded (partFiles a) ++ [("analysis.json",unfinished a)]) with
      ⟨written,e | done⟩
    · exact ⟨rfl,by simp⟩
    · exact ⟨rfl,by simp⟩
  | some t =>
    dsimp only
    rcases writeFiles dir made (encoded (reportFiles t)) with ⟨written,e | done⟩
    · exact ⟨rfl,by simp [Except.mapError]⟩
    · exact ⟨rfl,fun _ => ⟨rfl,rfl⟩⟩

/-- A run either ends before its analysis or is the analysis of a file system that may have got a log
file. -/
theorem run_analyses (h : arguments texts = .ok given) :
    analysedSystem? logging fs settings given = none ∧
      (logging.Laws → fs.Extends (run logging room fs settings stamp texts).fileSystem) ∧
      (run logging room fs settings stamp texts).ending ≠ .exit 0 ∨
    ∃ analysed, analysedSystem? logging fs settings given = some analysed ∧
      (run logging room fs settings stamp texts).fileSystem =
        (analyse room analysed settings stamp given).fileSystem ∧
      (run logging room fs settings stamp texts).ending =
        (analyse room analysed settings stamp given).ending := by
  unfold run analysedSystem?
  rw [h]
  dsimp only
  split_ifs with hlevel
  · exact .inr ⟨fs,rfl,rfl,rfl⟩
  · have hsetUp := @extends_setUp logging fs settings
    rcases hs : setUp logging fs settings (given.logLevel.getD settings.logLevel) with
      ⟨opened,crash | shown⟩
    · refine .inl ⟨rfl,fun hl => ?_,by simp⟩
      have hopened := hsetUp hl (given.logLevel.getD settings.logLevel)
      rwa [hs] at hopened
    · exact .inr ⟨opened,rfl,rfl,rfl⟩

/-- What becomes of the file system while a run goes on: nothing is lost before the writing, and the
reports are what is written. -/
theorem run_cases (logging : Logging) (room : Nat) (fs : FileSystem) (settings : Settings)
    (stamp : String) (texts : List String) :
    writing? logging room fs settings stamp texts = none ∧
      (logging.Laws → fs.Extends (run logging room fs settings stamp texts).fileSystem) ∧
      (run logging room fs settings stamp texts).ending ≠ .exit 0 ∨
    ∃ w, writing? logging room fs settings stamp texts = some w ∧
      (logging.Laws → fs.Extends w.fileSystem) ∧
      ((run logging room fs settings stamp texts).fileSystem = w.fileSystem ∧
        (run logging room fs settings stamp texts).ending ≠ .exit 0 ∨
      (run logging room fs settings stamp texts).fileSystem =
          (writeFiles w.directory w.fileSystem (writtenFiles w.analysis)).1 ∧
        ((run logging room fs settings stamp texts).ending = .exit 0 → w.analysis.text?.isSome ∧
          (writeFiles w.directory w.fileSystem (writtenFiles w.analysis)).2 = .ok ())) := by
  cases ha : arguments texts with
  | error reason =>
    unfold run writing?
    rw [ha]
    exact .inl ⟨rfl,fun _ => .refl fs,by simp⟩
  | ok given =>
    rcases @run_analyses logging room fs settings stamp texts given ha with
      ⟨hnone,hext,hend⟩ | ⟨analysed,hsome,hfs,hend⟩
    · rw [writing?_eq ha, hnone]
      exact .inl ⟨rfl,hext,hend⟩
    · have hext := fun hl : logging.Laws => extends_analysedSystem hl hsome
      rw [hfs, hend, writing?_eq ha, hsome, Option.bind_some]
      rcases analyse_cases room analysed settings stamp given with
        ⟨hnone,hsame,hfail⟩ | ⟨a,ha,hwritten,hok⟩
      · rw [hnone, hsame]
        exact .inl ⟨rfl,hext,hfail⟩
      · rw [ha]
        refine .inr ⟨_,rfl,fun hl => (hext hl).trans extends_makeDirectories,?_⟩
        dsimp only
        rcases hm : analysed.makeDirectories (directory settings given) with ⟨made,e | done⟩
        · unfold writeReports at hwritten hok
          rw [hm] at hwritten hok
          exact .inl ⟨hwritten,fun h => by cases hok h⟩
        · obtain ⟨hfiles,hall⟩ := writeReports_made a hm
          exact .inr ⟨hwritten.trans hfiles,fun hexit => hall (hok hexit)⟩

/-- A run that ends well has written all reports of its analysis. -/
theorem written_of_exit (h : (run logging room fs settings stamp texts).ending = .exit 0) :
    ∃ w a, writing? logging room fs settings stamp texts = some w ∧ w.analysis.text? = some a ∧
      writeFiles w.directory w.fileSystem (encoded (reportFiles a)) =
        ((run logging room fs settings stamp texts).fileSystem,.ok ()) := by
  rcases run_cases logging room fs settings stamp texts with
    ⟨-,-,hfail⟩ | ⟨w,hw,-,⟨-,hfail⟩ | ⟨hfs,hok⟩⟩
  · exact absurd h hfail
  · exact absurd h hfail
  · obtain ⟨hsome,hwritten⟩ := hok h
    obtain ⟨a,ha⟩ := Option.isSome_iff_exists.mp hsome
    rw [writtenFiles, ha] at hfs hwritten
    exact ⟨w,a,hw,ha,Prod.ext hfs.symm hwritten⟩

theorem exit_of_written {analysed written : FileSystem} {root real : Path} {a : Analysis CodePoints}
    (hg : arguments texts = .ok given) (hs : analysedSystem? logging fs settings given = some analysed)
    (hv : Project.validate analysed (some given.projectPath) = .ok root)
    (ha : (Analysis.run analysed room settings {} stamp root).outcome.1 = .ok a)
    (hw : writeReports analysed (directory settings given) a = (written,.ok ()))
    (hr : written.resolve (directory settings given) = .ok real) :
    (run logging room fs settings stamp texts).ending = .exit 0 ∧
      (run logging room fs settings stamp texts).fileSystem = written := by
  rcases @run_analyses logging room fs settings stamp texts given hg with
    ⟨hnone,-,-⟩ | ⟨analysed',hsome,hfs,hend⟩
  · rw [hs] at hnone
    cases hnone
  · obtain rfl := Option.some.inj (hs.symm.trans hsome)
    rw [hfs, hend]
    unfold analyse
    rw [hv]
    rcases hrun : (Analysis.run analysed room settings {} stamp root).outcome with ⟨result,log⟩
    rw [hrun] at ha
    cases ha
    unfold directory at hw hr
    simp only [hrun, hw, hr, and_self]

/-- What lies at a path is there after a run, unless a report is written to its place. -/
theorem status_of_run {p : Path} {found : Location × Entry} (hl : logging.Laws)
    (hs : fs.status p = .ok found)
    (hp : ∀ w, writing? logging room fs settings stamp texts = some w →
      ∀ f ∈ writtenFiles w.analysis, w.fileSystem.Apart (w.directory.child f.1) p) :
    (run logging room fs settings stamp texts).fileSystem.status p = .ok found := by
  rcases run_cases logging room fs settings stamp texts with
    ⟨-,hext,-⟩ | ⟨w,hw,hext,⟨hfs,-⟩ | ⟨hfs,-⟩⟩
  · exact (hext hl).status hs
  · rw [hfs]
    exact (hext hl).status hs
  · rw [hfs]
    exact (status_of_writeFiles (hp w hw)).mpr ((hext hl).status hs)

/-- One run and what is done to the file system before it. -/
structure Round where
  change : FileSystem → FileSystem
  logging : Logging
  room : Nat
  settings : Settings
  stamp : String
  texts : List String

def Round.outcome (r : Round) (start : FileSystem) : Outcome :=
  run r.logging r.room start r.settings r.stamp r.texts

def Round.writing? (r : Round) (start : FileSystem) : Option Writing :=
  CommandLine.writing? r.logging r.room start r.settings r.stamp r.texts

/-- Some rounds one after another, each with the file system that its run starts from. -/
def history : FileSystem → List Round → List (FileSystem × Round)
  | _, [] => []
  | fs, r :: rounds => (r.change fs,r) :: history (r.outcome (r.change fs)).fileSystem rounds

def afterRounds : FileSystem → List Round → FileSystem
  | fs, [] => fs
  | fs, r :: rounds => afterRounds (r.outcome (r.change fs)).fileSystem rounds

/-- A file that no round writes or changes is there after all of them, as it was. -/
theorem status_afterRounds {rounds : List Round} {p : Path} {found : Location × Entry}
    (hl : ∀ r ∈ rounds, r.logging.Laws) (hs : fs.status p = .ok found)
    (hc : ∀ r ∈ rounds, ∀ before : FileSystem, before.status p = .ok found →
      (r.change before).status p = .ok found)
    (hp : ∀ s ∈ history fs rounds, ∀ w, s.2.writing? s.1 = some w → ∀ f ∈ writtenFiles w.analysis,
      w.fileSystem.Apart (w.directory.child f.1) p) :
    (afterRounds fs rounds).status p = .ok found := by
  induction rounds generalizing fs with
  | nil => exact hs
  | cons r rounds ih =>
    obtain ⟨hfirst,hlater⟩ := List.forall_mem_cons.mp hp
    obtain ⟨hchange,hchanges⟩ := List.forall_mem_cons.mp hc
    obtain ⟨hlaws,hlawsLater⟩ := List.forall_mem_cons.mp hl
    exact ih hlawsLater (status_of_run hlaws (hchange fs hs) hfirst) hchanges hlater

/-- After each run of a history that ends well the files in its directory show one analysis, unless one
of a part that it has not found stood there before. -/
theorem history_mirrors (fs : FileSystem) (rounds : List Round) :
    ∀ s ∈ history fs rounds, (s.2.outcome s.1).ending = .exit 0 →
      ∃ w a, s.2.writing? s.1 = some w ∧ w.analysis.text? = some a ∧
        (Separate w.fileSystem w.directory → a.Countable →
          (Mirrors (s.2.outcome s.1).fileSystem w.directory a.toJson ↔
            Fresh w.fileSystem w.directory a.toJson)) := by
  intro s _ hexit
  obtain ⟨w,a,hw,ha,hwritten⟩ := written_of_exit hexit
  exact ⟨w,a,hw,ha,mirrors_of_writeFiles hwritten⟩

def deskRoot : Path := Path.mk .root ["p"]

def desk : FileSystem where
  entries := [(["p"],.directory), (["p","schema.prisma"],.file "model A \x7b\n id Int\n\x7d".toUTF8.toList)]
  workingDirectory := []

/-- The project without its schema, and two reports on it. -/
def clearedDesk (schema whole : List UInt8) : FileSystem where
  entries := [(["p"],.directory), (["o"],.directory), (["o","schema.json"],.file schema),
    (["o","analysis.json"],.file whole)]
  workingDirectory := []

def deskSchema : SchemaReport :=
  ⟨[⟨"A",[⟨"id","Int",false,false,false⟩]⟩],[],"schema.prisma","/p",""⟩

/-- The analysis of a project that has at most a schema. -/
def deskAnalysis {Name : Type} (name : Name) (schema : Option SchemaReport) : Analysis Name :=
  ⟨"/p",name,"",none,none,schema,none⟩

def fileless : Logging := ⟨fun _ => .ok fun _ => true,fun fs _ => (fs,.ok ())⟩

def withSchema : Round := ⟨id,fileless,900,{},"",["/p","--output-dir","/o"]⟩

def withoutSchema : Round := { withSchema with change := (·.erase ["p","schema.prisma"]) }

/-- The analysis of a project in which nothing but a schema can be found. -/
theorem run_desk {fs : FileSystem} {schema : Option SchemaReport} {visits : List Visit}
    (hroot : fs.resolve deskRoot = .ok deskRoot) (hname : Project.name fs 900 deskRoot = .ok "p")
    (hroutes : (Route.handlers fs {} deskRoot).outcome.1 = .ok [])
    (hcomponents : (Component.files fs ({} : Settings).walkPolicy deskRoot).outcome.1 = .ok [])
    (hschema : (Schema.scan fs ({} : Settings).entityKeywordList "" deskRoot).outcome.1 = .ok schema)
    (hwalk : fs.walk ({} : Settings).walkPolicy deskRoot = .ok visits)
    (hsources : (visits.filterMap Visit.file?).filter Source.isSource = []) :
    (Analysis.run fs 900 {} {} "" deskRoot).outcome.1 =
      .ok (deskAnalysis (CodePoints.ofText "p") (schema.filter (!·.entities.isEmpty))) := by
  have hroute : (Route.scan fs {} "" deskRoot).outcome.1 = .ok ⟨[],"/p",""⟩ := by
    rw [Route.scan_outcome, hroot]
    dsimp only
    rw [hroutes, Except.map, List.flatMap_nil, List.mergeSort_nil]
    rfl
  have hcomponent : (Component.scan fs {} "@/" "" deskRoot).outcome.1 = .ok ⟨[],[],"/p",""⟩ := by
    rw [Component.scan, Component.scanUnder_outcome, hroot]
    dsimp only
    rw [hcomponents, Except.map, List.filterMap_nil, List.mergeSort_nil, DirectoryCount.ofComponents,
      List.map_nil, List.eraseDups_nil, List.map_nil, List.mergeSort_nil]
    rfl
  have hgraph : (Graph.build fs {} "@/" 500 "" deskRoot).outcome.1 = .ok ⟨[],[],[],"/p",""⟩ := by
    rw [Graph.build_outcome, hroot]
    dsimp only
    rw [hroot]
    dsimp only
    rw [Walk.sources_outcome hwalk, Walk.beforeCap_sources, hsources, List.take_nil, Except.map]
    have hplace : Graph.place fs deskRoot [] = [] := rfl
    simp only [hplace, Graph.edges, Graph.clusters, List.map_nil, List.flatMap_nil,
      List.eraseDups_nil, List.filter_nil, List.mergeSort_nil]
    rfl
  have halias : ({} : Analysis.Options).aliasPrefix.getD ({} : Settings).aliasPrefix = "@/" := rfl
  have hcap : ({} : Analysis.Options).maxFiles.getD ({} : Settings).maxFiles = 500 := rfl
  rw [Analysis.run_outcome hname, halias, hcap, hroute, hcomponent, hschema, hgraph]
  rfl

theorem desk_analysis : (Analysis.run desk 900 {} {} "" deskRoot).outcome.1 =
    .ok (deskAnalysis (CodePoints.ofText "p") (some deskSchema)) := by
  have hfs : desk.WellFormed := wellFormed_of_getLast? (by decide) (by decide)
  have hschema : (Schema.scan desk ({} : Settings).entityKeywordList "" deskRoot).outcome.1 =
      .ok (some deskSchema) := by
    decide +kernel
  have hwalk : desk.walk ({} : Settings).walkPolicy deskRoot =
      .ok [.file (deskRoot.child "schema.prisma")] := by
    rw [hfs.walk_computed]
    rfl
  exact run_desk rfl rfl rfl rfl hschema hwalk (by decide)

theorem clearedDesk_analysis (schema whole : List UInt8) :
    (Analysis.run (clearedDesk schema whole) 900 {} {} "" deskRoot).outcome.1 =
      .ok (deskAnalysis (CodePoints.ofText "p") none) := by
  have hfs : (clearedDesk schema whole).WellFormed := by
    refine wellFormed_of_getLast? (by simp [clearedDesk]) fun e he => ?_
    simp only [clearedDesk, List.mem_cons, List.not_mem_nil, or_false] at he
    rcases he with rfl | rfl | rfl | rfl <;> rfl
  have hwalk : (clearedDesk schema whole).walk ({} : Settings).walkPolicy deskRoot = .ok [] := by
    rw [hfs.walk_computed]
    rfl
  exact run_desk rfl rfl rfl rfl rfl hwalk rfl

def deskOutput : Path := Path.mk .root ["o"]

def deskGiven : Arguments := ⟨"/p",some "/o",none⟩

def bytesOf (value : Json) : List UInt8 := value.render.toUTF8.toList

def reportedDesk : FileSystem where
  entries := desk.entries ++ [(["o"],.directory),
    (["o","schema.json"],.file (bytesOf deskSchema.toJson)),
    (["o","analysis.json"],.file (bytesOf (deskAnalysis "p" (some deskSchema)).toJson))]
  workingDirectory := []

theorem withSchema_outcome : (withSchema.outcome desk).ending = .exit 0 ∧
    (withSchema.outcome desk).fileSystem = reportedDesk := by
  have hwritten : writeReports desk (directory {} deskGiven)
      (deskAnalysis (CodePoints.ofText "p") (some deskSchema)) =
      (reportedDesk,.ok ()) := rfl
  have hgiven : arguments withSchema.texts = .ok deskGiven := rfl
  exact exit_of_written hgiven rfl rfl desk_analysis hwritten rfl

theorem withoutSchema_outcome (schema whole : List UInt8) :
    (withoutSchema.outcome (clearedDesk schema whole)).ending = .exit 0 ∧
    (withoutSchema.outcome (clearedDesk schema whole)).fileSystem =
      clearedDesk schema (bytesOf (deskAnalysis "p" none).toJson) := by
  have hwritten : writeReports (clearedDesk schema whole) (directory {} deskGiven)
      (deskAnalysis (CodePoints.ofText "p") none) =
        (clearedDesk schema (bytesOf (deskAnalysis "p" none).toJson),.ok ()) := rfl
  have hgiven : arguments withoutSchema.texts = .ok deskGiven := rfl
  exact exit_of_written hgiven rfl rfl (clearedDesk_analysis schema whole) hwritten rfl

theorem desk_history : ∃ schema whole, history desk [withSchema,withoutSchema] =
    [(desk,withSchema),(clearedDesk schema whole,withoutSchema)] := by
  have hchange : withoutSchema.change reportedDesk = clearedDesk (bytesOf deskSchema.toJson)
      (bytesOf (deskAnalysis "p" (some deskSchema)).toJson) := rfl
  refine ⟨bytesOf deskSchema.toJson,bytesOf (deskAnalysis "p" (some deskSchema)).toJson,?_⟩
  rw [history, history, history, show withSchema.change desk = desk from rfl,
    withSchema_outcome.2, hchange]

def openedDesk : FileSystem where
  entries := desk.entries ++ [(["o"],.directory)]
  workingDirectory := []

theorem desk_writing : withSchema.writing? desk =
    some ⟨deskOutput,openedDesk,deskAnalysis (CodePoints.ofText "p") (some deskSchema)⟩ := by
  have hanalysis : analysis? 900 desk {} "" deskGiven =
      some (deskAnalysis (CodePoints.ofText "p") (some deskSchema)) := by
    have hvalid : Project.validate desk (some deskGiven.projectPath) = .ok deskRoot := rfl
    rw [analysis?, hvalid]
    dsimp only
    rw [desk_analysis]
    rfl
  have hgiven : arguments withSchema.texts = .ok deskGiven := rfl
  have hsystem : analysedSystem? fileless desk {} deskGiven = some desk := rfl
  have hwriting := @writing?_eq fileless 900 desk {} "" withSchema.texts deskGiven hgiven
  rw [hsystem, Option.bind_some, hanalysis] at hwriting
  exact hwriting

theorem openedDesk_separate : Separate openedDesk deskOutput := by
  have hplace : ∀ n ∈ partNames.map (·.1) ++ [wholeFile],
      openedDesk.place? (deskOutput.child n) = some ["o",n] := by
    decide +kernel
  have hnames : (partNames.map (·.1) ++ [wholeFile]).Nodup := by decide
  refine hnames.pairwise_of_forall_ne fun m hm n hn hne site hsite hsite' => hne ?_
  rw [hplace m hm] at hsite
  rw [hplace n hn, ← hsite] at hsite'
  simpa using hsite'.symm

theorem history_mirrors_desk : (desk,withSchema) ∈ history desk [withSchema,withoutSchema] ∧
    (withSchema.outcome desk).ending = .exit 0 ∧
    Separate openedDesk deskOutput ∧ (deskAnalysis "p" (some deskSchema)).Countable ∧
    Fresh openedDesk deskOutput (deskAnalysis "p" (some deskSchema)).toJson ∧
    Mirrors (withSchema.outcome desk).fileSystem deskOutput
      (deskAnalysis "p" (some deskSchema)).toJson := by
  have hm : (desk,withSchema) ∈ history desk [withSchema,withoutSchema] := List.mem_cons_self
  have hcountable : (deskAnalysis "p" (some deskSchema)).Countable := by rintro r ⟨⟩
  have hfresh : Fresh openedDesk deskOutput (deskAnalysis "p" (some deskSchema)).toJson := by
    have hnone : ∀ f ∈ partNames, openedDesk.exists? (deskOutput.child f.1) ≠ .ok true := by
      decide +kernel
    exact fun f hf _ => hnone f hf
  obtain ⟨w,a,hw,ha,hmirrors⟩ := history_mirrors desk [withSchema,withoutSchema] _ hm withSchema_outcome.1
  obtain rfl := Option.some.inj (desk_writing.symm.trans hw)
  obtain rfl : deskAnalysis "p" (some deskSchema) = a := Option.some.inj ha
  exact ⟨hm,withSchema_outcome.1,openedDesk_separate,hcountable,hfresh,
    (hmirrors openedDesk_separate hcountable).mpr hfresh⟩

/-- A schema that is gone has a report all the same. -/
theorem vanished_schema_reported : ∃ start, history desk [withSchema,withoutSchema] =
      [(desk,withSchema),(start,withoutSchema)] ∧
    (withSchema.outcome desk).ending = .exit 0 ∧ (withoutSchema.outcome start).ending = .exit 0 ∧
    Holds (withoutSchema.outcome start).fileSystem (deskOutput.child wholeFile)
      (deskAnalysis "p" none).toJson ∧
    (deskAnalysis "p" none).toJson.member? "schema" = some .null ∧
    (withoutSchema.outcome start).fileSystem.exists? (deskOutput.child "schema.json") = .ok true := by
  obtain ⟨schema,whole,hhistory⟩ := desk_history
  obtain ⟨hexit,hfs⟩ := withoutSchema_outcome schema whole
  refine ⟨_,hhistory,withSchema_outcome.1,hexit,?_,rfl,?_⟩
  · rw [hfs]
    exact ⟨_,rfl,fun room hroom => Json.read_render
      (readable_reportFiles (by rintro r ⟨⟩) hroom _ mem_reportFiles_whole)⟩
  · rw [hfs]
    rfl

end WebAtlas.CommandLine
