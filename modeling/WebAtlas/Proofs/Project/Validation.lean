import WebAtlas.Service
import WebAtlas.Proofs.CommandLine.Rounds
import WebAtlas.Proofs.FileSystem.Overlong
import WebAtlas.Proofs.FileSystem.SelfLink
import WebAtlas.Proofs.Path.Append

/-! # Which texts are taken for a project

A text that names an existing directory stands for that directory. Any other is refused for a reason:
the service answers a bad request, and a run of the command ends with code 1 before it writes. Texts
that meet a limit of the file system on the way, or that hold a null byte, are not refused; looking them
up breaks off.
-/
namespace WebAtlas
open FileSystem
variable {fs : FileSystem} {room : Nat} {p : Path} {text : String} {loc : Location} {reason : ProjectPathFault}

/-- A path whose look-up is not refused for a limit or a null byte. Where it breaks off, no step up is
still ahead; the links on the way and the real path are short enough to be looked up themselves. -/
structure FileSystem.Traceable (fs : FileSystem) (p : Path) : Prop where
  written : p.segments.any Path.holdsNull = false
  followed : ∀ fault ∈ [FileFault.tooManyLinks,.nullByte,.nameTooLong], fs.status p ≠ .error fault
  ends : ∀ e asked, fs.Ends (readFrom p) (fs.origin p) p.segments e asked →
    ".." ∉ e.ahead ∧ (∀ a ∈ asked, a.text.utf8ByteSize ≤ pathLimit) ∧ Fits e.wholeLocation

theorem FileSystem.Traceable.of_ends {e : Ending} {asked : List Path}
    (h : fs.Ends (readFrom p) (fs.origin p) p.segments e asked)
    (hw : p.segments.any Path.holdsNull = false)
    (hf : ∀ fault ∈ [FileFault.tooManyLinks,.nullByte,.nameTooLong], fs.status p ≠ .error fault)
    (hup : ".." ∉ e.ahead) (ha : ∀ a ∈ asked, a.text.utf8ByteSize ≤ pathLimit)
    (hfit : Fits e.wholeLocation) : fs.Traceable p where
  written := hw
  followed := hf
  ends := by
    intro e' asked' h'
    obtain ⟨hloc,-,hahead,-,hasked⟩ := h.same h'
    rw [← hahead, ← hasked rfl, Ending.wholeLocation, ← hloc, ← hahead]
    exact ⟨hup,ha,hfit⟩

/-- The look-up tells where the walk along a traceable path ends. -/
theorem FileSystem.Traceable.ended (h : fs.Traceable p) : ∃ e asked,
    fs.Ends (readFrom p) (fs.origin p) p.segments e asked ∧
      ∀ loc entry, fs.status p = .ok (loc,entry) ↔ e.location = loc ∧ e.found = some entry := by
  have hfit : p.text.utf8ByteSize ≤ pathLimit := by
    by_contra hlong
    refine h.followed .nameTooLong (by simp) ?_
    unfold status locate
    rw [if_pos (Nat.not_le.mp hlong)]
  have hlocate := @locate_of_fits fs true p hfit
  have hfollow : ∀ fault ∈ [FileFault.tooManyLinks,.nullByte,.nameTooLong],
      fs.follow true linkLimit (fs.origin p) p.segments ≠ .error fault := by
    intro fault hm hf
    apply h.followed fault hm
    unfold status
    rw [hlocate, hf]
  obtain ⟨e,asked,hends,hfound⟩ := follow_ends linkLimit (readFrom p) (hfollow _ (by simp))
    (hfollow _ (by simp)) (hfollow _ (by simp))
  refine ⟨e,asked,hends,fun loc entry => ?_⟩
  unfold status
  rw [← hfound, hlocate]
  rcases fs.follow true linkLimit (fs.origin p) p.segments with fault | ⟨_ | _ | _⟩ <;> simp

/-- Whether a text names an existing directory; the empty text names nothing. -/
def NamesDirectory (fs : FileSystem) (text : String) (loc : Location) : Prop :=
  text ≠ "" ∧ fs.status (Path.parse text) = .ok (loc,.directory)

namespace Project

/-- The check tells a directory from all else, as long as the text can be traced. -/
theorem validate_of_traceable (hwd : fs.IsReal fs.workingDirectory) (ht : text ≠ "")
    (h : fs.Traceable (Path.parse text)) :
    (∃ loc, NamesDirectory fs text loc ∧ validate fs (some text) = .ok (Path.mk .root loc)) ∨
      (∀ loc, ¬ NamesDirectory fs text loc) ∧
        ∃ reason, validate fs (some text) = .error (.projectPath reason) := by
  obtain ⟨e,asked,hends,hfound⟩ := h.ended
  obtain ⟨hup,hasked,hfit⟩ := h.ends e asked hends
  have hs := stands_readFrom hwd (Path.parse text)
  have hreal := realPath_of_ends hends hasked hs hup
  rcases hends.stands_or_stuck hs with ⟨hdirectory,hahead,hstands⟩ | ⟨hnone,hstuck⟩
  · have hwhole : e.wholeLocation = e.location := by
      rw [Ending.wholeLocation, hahead]
      exact List.append_nil _
    rw [hwhole] at hreal hfit
    have hstatus := hstands.real.status hfit
    exact .inl ⟨e.location,⟨ht,(hfound _ _).mpr ⟨rfl,hdirectory⟩⟩,
      validate_of_directory ht (resolve_of_status h.written hreal hstatus) hstatus⟩
  · refine .inr ⟨fun loc hnames => hnone ((hfound _ _).mp hnames.2).2,?_⟩
    rcases hstuck.status (solid e.ahead) hfit with hstatus | hstatus | ⟨bytes,hstatus⟩
    all_goals
      have hresolve := resolve_of_ne h.written hreal (show fs.status (Path.mk .root e.wholeLocation) ≠ _ by
        rw [Ending.wholeLocation, hstatus]
        simp)
      rw [validate_of_resolve ht hresolve, Ending.wholeLocation, hstatus]
      exact ⟨_,rfl⟩

end Project

/-- A text that is refused wherever a project is asked for: by the check itself, by the service in
whatever framework, and by a run of the command with whatever log. -/
structure Rejected (fs : FileSystem) (text : String) (reason : ProjectPathFault) : Prop where
  validated : Project.validate fs (some text) = .error (.projectPath reason)
  answered : ∀ {Request Response : Type} (f : Service.Framework Request Response), f.Laws →
    ∀ (room : Nat) (settings : Settings) (stamp : String) (r : Request) (given : Service.Fields),
    f.method r = "POST" → f.path r ∈ ["/api/analyze","/api/metrics"] → f.fields? r = some given →
    given.projectPath = some text → ∃ response,
      Service.answer f fs room settings stamp r = (response,[]) ∧
        f.status response = 400 ∧ f.detail? response = some reason.message
  exited : ∀ (logging : CommandLine.Logging) (room : Nat) (start : FileSystem) (settings : Settings)
    (stamp : String) (texts : List String) (given : CommandLine.Arguments),
    CommandLine.arguments texts = .ok given → given.projectPath = text →
    CommandLine.analysedSystem? logging start settings given = some fs →
    (CommandLine.run logging room start settings stamp texts).ending = .exit 1 ∧
      (CommandLine.run logging room start settings stamp texts).fileSystem = fs ∧
      (logging.Laws → start.Extends fs)

namespace Service
variable {Request Response : Type} {f : Framework Request Response} {settings : Settings}
  {stamp : String} {r : Request} {given : Fields}

theorem handle_of_refused {endpoint : Endpoint} (he : endpoint = .analyze ∨ endpoint = .metrics)
    (hv : Project.validate fs given.projectPath = .error (.projectPath reason)) :
    (handle fs room settings stamp given endpoint).outcome = (.error (.http 400 reason.message),[]) := by
  have hanalysis : analysis fs room settings stamp given.projectPath =
      throw (.http 400 reason.message) := by
    unfold analysis
    rw [hv]
  rcases he with rfl | rfl
  · unfold handle
    rw [hanalysis]
    rfl
  · unfold handle metrics
    rw [hanalysis]
    rfl

theorem answer_of_raised {endpoint : Endpoint} {raised : Raised} (hf : f.Laws)
    (hm : f.method r = endpoint.method) (hp : f.path r = endpoint.path) (hg : f.fields? r = some given)
    (hr : (handle fs room settings stamp given endpoint).outcome = (.error raised,[])) :
    answer f fs room settings stamp r = (f.raised raised,[]) := by
  unfold answer
  rw [hf.routes r endpoint given hm hp hg]
  dsimp only
  rw [hr]

end Service

theorem rejected_of_validate (hv : Project.validate fs (some text) = .error (.projectPath reason)) :
    Rejected fs text reason where
  validated := hv
  answered := by
    intro Request Response f hf room settings stamp r given hmethod hpath hfields hgiven
    obtain ⟨hstatus,hdetail⟩ := hf.raises 400 reason.message
    obtain ⟨endpoint,he,hm,hp⟩ : ∃ endpoint : Service.Endpoint,
        (endpoint = .analyze ∨ endpoint = .metrics) ∧ f.method r = endpoint.method ∧
          f.path r = endpoint.path := by
      rcases List.mem_pair.mp hpath with hpath | hpath
      · exact ⟨.analyze,.inl rfl,hmethod,hpath⟩
      · exact ⟨.metrics,.inr rfl,hmethod,hpath⟩
    exact ⟨_,Service.answer_of_raised hf hm hp hfields (Service.handle_of_refused he (hgiven ▸ hv)),
      hstatus,hdetail⟩
  exited := by
    intro logging room start settings stamp texts given hgiven htext hsystem
    rcases @CommandLine.run_analyses logging room start settings stamp texts given hgiven with
      ⟨hnone,-,-⟩ | ⟨analysed,hsome,hfs,hend⟩
    · rw [hsystem] at hnone
      cases hnone
    · obtain rfl := Option.some.inj (hsystem.symm.trans hsome)
      have hanalyse : CommandLine.analyse room fs settings stamp given =
          ⟨.exit 1,"",fs,[CommandLine.errorRecord s!"Error: {reason.message}"]⟩ := by
        unfold CommandLine.analyse
        rw [htext, hv]
      rw [hend, hfs, hanalyse]
      exact ⟨rfl,rfl,fun hl => CommandLine.extends_analysedSystem hl hsystem⟩

/-- A text that names an existing directory gives that directory, and any other text is refused
wherever a project is asked for. -/
theorem Project.rejected_unless_directory (hwd : fs.IsReal fs.workingDirectory)
    (h : text ≠ "" → fs.Traceable (Path.parse text)) :
    (∀ loc, NamesDirectory fs text loc →
      Project.validate fs (some text) = .ok (Path.mk .root loc)) ∧
    ((∀ loc, ¬ NamesDirectory fs text loc) → ∃ reason, Rejected fs text reason) := by
  by_cases ht : text = ""
  · subst ht
    exact ⟨fun loc hnames => absurd rfl hnames.1,fun _ => ⟨.required,rejected_of_validate rfl⟩⟩
  · rcases validate_of_traceable hwd ht (h ht) with ⟨loc,hnames,hvalid⟩ | ⟨hno,reason,hrefused⟩
    · refine ⟨fun loc' hnames' => ?_,fun hno => absurd hnames (hno loc)⟩
      obtain rfl : loc = loc' := by
        have hsame := hnames.2.symm.trans hnames'.2
        exact (Prod.mk.inj (Except.ok.inj hsame)).1
      exact hvalid
    · exact ⟨fun loc hnames => absurd hnames (hno loc),fun _ => ⟨reason,rejected_of_validate hrefused⟩⟩

def attic : FileSystem where
  entries := [(["home"],.directory), (["home","app"],.directory), (["home","old"],.link "gone")]
  workingDirectory := ["home"]

theorem attic_traceable : attic.Traceable (Path.parse "app") ∧ attic.Traceable (Path.parse "old") := by
  have happ : attic.Ends (readFrom (Path.parse "app")) ["home"] ["app"]
      ⟨⟨.relative,["app"]⟩,["home","app"],some .directory,[]⟩ [] :=
    .enter (by decide) rfl (.here _ _)
  have hold : attic.Ends (readFrom (Path.parse "old")) ["home"] ["old"]
      ⟨⟨.relative,["gone"]⟩,["home","gone"],none,[]⟩ [⟨.relative,["old"]⟩] :=
    .link (by decide) rfl (.absent (by decide) rfl)
  exact ⟨.of_ends happ (by decide) (by decide) (by simp) (by simp) (by decide),
    .of_ends hold (by decide) (by decide) (by simp) (by decide) (by decide)⟩

structure PlainRequest where
  method : String
  path : String
  fields : Service.Fields

/-- A framework whose answers are a status with a detail. -/
def plainFramework : Service.Framework PlainRequest (Nat × Option String) where
  method := PlainRequest.method
  path := PlainRequest.path
  fields? r := some r.fields
  route r := ([.health,.analyze,.metrics,.fileView].find? fun endpoint : Service.Endpoint =>
    endpoint.method = r.method ∧ endpoint.path = r.path).map (·,r.fields)
  refusal _ := (404,none)
  sent _ := (200,none)
  raised
    | .http status detail => (status,some detail)
    | _ => (500,none)
  status := Prod.fst
  detail? := Prod.snd

theorem plainFramework_laws : plainFramework.Laws where
  routes := by
    rintro ⟨method,path,fields⟩ endpoint given hm hp hg
    obtain rfl : method = endpoint.method := hm
    obtain rfl : path = endpoint.path := hp
    obtain rfl := Option.some.inj hg
    cases endpoint <;> rfl
  raises _ _ := ⟨rfl,rfl⟩

theorem rejected_unless_directory_attic : attic.IsReal attic.workingDirectory ∧
    attic.Traceable (Path.parse "app") ∧ attic.Traceable (Path.parse "old") ∧
    NamesDirectory attic "app" ["home","app"] ∧ (∀ loc, ¬ NamesDirectory attic "old" loc) ∧
    Project.validate attic (some "app") = .ok (Path.mk .root ["home","app"]) ∧
    ∃ reason, Rejected attic "old" reason ∧
      Service.answer plainFramework attic 900 {} "" ⟨"POST","/api/analyze",⟨some "old",none⟩⟩ =
        ((400,some reason.message),[]) ∧
      (CommandLine.run CommandLine.fileless 900 attic {} "" ["old"]).ending = .exit 1 := by
  have hwd : attic.IsReal attic.workingDirectory := isReal_nil.snoc (by decide) rfl
  have hnames : NamesDirectory attic "app" ["home","app"] := ⟨by decide,rfl⟩
  have hno : ∀ loc, ¬ NamesDirectory attic "old" loc := fun loc h => by cases h.2
  obtain ⟨happ,hold⟩ := attic_traceable
  obtain ⟨reason,hrejected⟩ := (Project.rejected_unless_directory hwd fun _ => hold).2 hno
  obtain ⟨⟨status,detail⟩,hanswer,rfl,rfl⟩ := hrejected.answered plainFramework plainFramework_laws 900
    {} "" ⟨"POST","/api/analyze",⟨some "old",none⟩⟩ ⟨some "old",none⟩ rfl List.mem_cons_self rfl rfl
  exact ⟨hwd,happ,hold,hnames,hno,
    (Project.rejected_unless_directory hwd fun _ => happ).1 _ hnames,reason,hrejected,hanswer,
    (hrejected.exited CommandLine.fileless 900 attic {} "" ["old"] ⟨"old",none,none⟩ rfl rfl rfl).1⟩

/-- A text with a name that is too long is not refused: testing its real path is a fault. -/
theorem Project.validate_of_overlong {site : Location} {long : String} (hsite : fs.IsReal site)
    (hlong : Unfit .nameTooLong long) (hz : site.any Path.holdsNull = false)
    (ht : Path.parse text = Path.mk .root (site ++ [long])) (hne : text ≠ "") :
    Project.validate fs (some text) =
      .error (.file ⟨.nameTooLong,Path.mk .root (site ++ [long])⟩) := by
  have hstatus := @status_of_overlong fs site [] long hsite hlong
  have hreal : fs.realPath (Path.parse text) = Path.mk .root (site ++ [long]) := by
    rw [ht]
    exact realPath_of_overlong hsite hlong
  have hnull : (site ++ [long]).any Path.holdsNull = false := by
    simp [hz, (nameFault?_eq_nameTooLong.mp hlong.2.2).1]
  rw [validate_of_resolve hne (resolve_of_ne (ht ▸ hnull) hreal (by simp [hstatus])), hstatus]
  exact if_neg (by simp [hnull])

/-- A link to itself beside a directory. -/
def snare : FileSystem where
  entries := [(["loop"],.link "loop"), (["p"],.directory)]
  workingDirectory := []

/-- Texts that name no directory and are not refused: a loop, a name that is too long, a null byte, and a
step back out of a directory that is missing. -/
theorem snare_not_refused :
    (∀ text ∈ ["/loop","/" ++ overlong,"/p\x00","/nowhere/../p"],
      ∀ loc, ¬ NamesDirectory snare text loc) ∧
    Project.validate snare (some "/loop") = .error (.linkLoop (Path.mk .root ["loop"])) ∧
    Project.validate snare (some ("/" ++ overlong)) =
      .error (.file ⟨.nameTooLong,Path.mk .root [overlong]⟩) ∧
    Project.validate snare (some "/p\x00") = .error .nullByte ∧
    Project.validate snare (some "/nowhere/../p") = .ok (Path.mk .root ["p"]) ∧
    ∀ room, (Service.handle snare room {} "" ⟨some "/loop",none⟩ .analyze).outcome =
        (.error (.fault (.linkLoop (Path.mk .root ["loop"]))),[]) ∧
      (CommandLine.run CommandLine.fileless room snare {} "" ["/loop"]).ending =
        .crash (.fault (.linkLoop (Path.mk .root ["loop"]))) := by
  have hlong : Path.parse ("/" ++ overlong) = Path.mk .root [overlong] := by
    have htext := Path.parse_text_root
      (Path.plain_singleton unfit_overlong.1 unfit_overlong.2.1 slash_not_mem_overlong)
    rwa [Path.text_root, String.intercalate_singleton] at htext
  have hstatus := @status_of_overlong snare [] [] overlong isReal_nil unfit_overlong
  refine ⟨?_,rfl,Project.validate_of_overlong isReal_nil unfit_overlong rfl hlong (by simp),
    Project.validate_of_null (by simp) (by decide),rfl,fun room => ⟨rfl,rfl⟩⟩
  intro text hm loc hnames
  have hdirectory := hnames.2
  simp only [List.mem_cons, List.not_mem_nil, or_false] at hm
  rcases hm with rfl | rfl | rfl | rfl
  · cases hdirectory
  · rw [hlong] at hdirectory
    exact nomatch hstatus.symm.trans hdirectory
  · cases hdirectory
  · cases hdirectory

end WebAtlas
