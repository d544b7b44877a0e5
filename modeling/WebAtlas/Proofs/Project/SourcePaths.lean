import WebAtlas.Proofs.Component.Scan
import WebAtlas.Proofs.Route.Scan
import WebAtlas.Schema.Scan

/-! # Source paths

Routes, components and the schema report name the file that they were found in. The name leads back to
the file from the project root, so no two files are reported under one name, wherever they lie.
-/
namespace WebAtlas.Source
variable {root file : Path}

/-- The name of a file leads back to it from the root, and no other file has it, be it by itself, as the
source of a route, as the path of a component or as that of a schema. -/
theorem relativeName_leads_back (fs : FileSystem) (hroot : root.Normalised) (hfile : file.Normalised) :
    (root.join (Path.parse (relativeName fs root file))).normalize = file ∧
    ∀ other, other.Normalised → other ≠ file →
      relativeName fs root other ≠ relativeName fs root file ∧
      (∀ route ∈ Route.ofFile fs root file, ∀ route' ∈ Route.ofFile fs root other,
        route'.sourceFile ≠ route.sourceFile) ∧
      (∀ aliasPrefix, ∀ component ∈ Component.ofFile? fs aliasPrefix root file,
        ∀ component' ∈ Component.ofFile? fs aliasPrefix root other, component'.path ≠ component.path) ∧
      (∀ keywords stamp text text', (Schema.reportOn keywords stamp fs root other text').schemaFile ≠
        (Schema.reportOn keywords stamp fs root file text).schemaFile) := by
  refine ⟨join_relativeName hroot hfile,fun other hother hne => ?_⟩
  have hname : relativeName fs root other ≠ relativeName fs root file :=
    fun h => hne (relativeName_inj hroot hfile hother h)
  refine ⟨hname,?_,?_,fun _ _ _ _ => hname⟩
  · intro route hroute route' hroute'
    rw [Route.sourceFile_of_mem hroute, Route.sourceFile_of_mem hroute']
    exact hname
  · intro aliasPrefix component hcomponent component' hcomponent'
    obtain ⟨text,-,rfl⟩ := Component.mem_ofFile?.mp hcomponent
    obtain ⟨text',-,rfl⟩ := Component.mem_ofFile?.mp hcomponent'
    exact hname

def nowhere : FileSystem := ⟨[],["tmp"]⟩

def webRoot : Path := ⟨.root,["srv","web"]⟩

/-- A file beside the project, under a name that a file of the project could have. -/
def sharedButton : Path := ⟨.root,["srv","lib","Button.tsx"]⟩

/-- A file beside the project and one in it are told apart by the steps up. -/
theorem relativeName_leads_beside : webRoot.Normalised ∧ sharedButton.Normalised ∧
    relativeName nowhere webRoot sharedButton = "../lib/Button.tsx" ∧
    (webRoot.join (Path.parse "../lib/Button.tsx")).normalize = sharedButton ∧
    relativeName nowhere webRoot (webRoot.descend ["lib","Button.tsx"]) ≠ "../lib/Button.tsx" := by
  have hroot : webRoot.Normalised := by decide
  have hfile : sharedButton.Normalised := by decide
  have hname : relativeName nowhere webRoot sharedButton = "../lib/Button.tsx" := by decide
  obtain ⟨hback,hothers⟩ := relativeName_leads_back nowhere hroot hfile
  have hother := (hothers (webRoot.descend ["lib","Button.tsx"]) (by decide) (by decide)).1
  rw [hname] at hback hother
  exact ⟨hroot,hfile,hname,hback,hother⟩

end WebAtlas.Source
