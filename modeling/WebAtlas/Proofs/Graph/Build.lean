import WebAtlas.Graph.Build
import WebAtlas.Proofs.FileSystem.RealPath
import WebAtlas.Proofs.Graph.NodeIds
import WebAtlas.Proofs.Walk.Sources

/-! # What a built graph is made of

A graph is built from the source files of a walk from the real path of the project, resolved once
more. They are normalised and distinct, so each of them has a node of its own, in the order of the walk.
-/
namespace WebAtlas.Graph
variable {fs : FileSystem} {project : Path} {aliasPrefix stamp : String} {settings : Settings}
  {maxFiles : Int} {graph : ImportGraph} {log : Log}

theorem root_bind {α : Type} (next : Path → Reporting Fault α) :
    (Project.root fs project >>= next).outcome = match fs.resolve project with
      | .error fault => (.error fault,[])
      | .ok root => (next root).outcome := by
  unfold Project.root
  cases fs.resolve project <;> rfl

/-- What becomes of the source files once a project and its files are found. -/
theorem build_outcome : (build fs settings aliasPrefix maxFiles stamp project).outcome.1 =
    match fs.resolve project with
    | .error fault => .error fault
    | .ok root => match fs.resolve root with
      | .error fault => .error fault
      | .ok start => (Walk.sources fs settings.walkPolicy maxFiles start).outcome.1.map fun files =>
          ⟨(place fs root files).map (·.node), edges fs root aliasPrefix (place fs root files),
            clusters ((place fs root files).map (·.node)), root.text, stamp⟩ := by
  unfold build
  rw [root_bind]
  cases fs.resolve project with
  | error fault => rfl
  | ok root =>
    dsimp only
    rw [root_bind]
    cases fs.resolve root with
    | error fault => rfl
    | ok start => exact congrArg Prod.fst (Reporting.outcome_bind_pure _ _)

theorem build_eq_ok_iff : (build fs settings aliasPrefix maxFiles stamp project).outcome = (.ok graph,log) ↔
    ∃ root start files, fs.resolve project = .ok root ∧ fs.resolve root = .ok start ∧
      (Walk.sources fs settings.walkPolicy maxFiles start).outcome = (.ok files,log) ∧
      graph = ⟨(place fs root files).map (·.node), edges fs root aliasPrefix (place fs root files),
        clusters ((place fs root files).map (·.node)), root.text, stamp⟩ := by
  unfold build
  rw [root_bind]
  cases hroot : fs.resolve project with
  | error fault => simp
  | ok root =>
    dsimp only
    rw [root_bind]
    cases hstart : fs.resolve root with
    | error fault => simp [hstart]
    | ok start =>
      dsimp only
      rw [Reporting.outcome_bind_pure, Prod.mk.injEq]
      constructor
      · rintro ⟨hgraph,hlog⟩
        cases hfiles : (Walk.sources fs settings.walkPolicy maxFiles start).outcome.1 with
        | error fault => rw [hfiles] at hgraph; cases hgraph
        | ok files =>
          rw [hfiles] at hgraph
          cases hgraph
          exact ⟨root,start,files,rfl,hstart,Prod.ext hfiles hlog,rfl⟩
      · rintro ⟨_,_,files,heq,heq',hfiles,rfl⟩
        cases heq
        cases hstart.symm.trans heq'
        rw [hfiles]
        exact ⟨rfl,rfl⟩

/-- Every source file found has one node, in the order of the walk, and no two nodes share an id. -/
theorem build_nodes (hfs : fs.WellFormed)
    (h : (build fs settings aliasPrefix maxFiles stamp project).outcome = (.ok graph,log)) :
    ∃ root start files, fs.resolve project = .ok root ∧ fs.resolve root = .ok start ∧
      (Walk.sources fs settings.walkPolicy maxFiles start).outcome = (.ok files,log) ∧
      (place fs root files).map (·.file) = files ∧
      graph.nodes = (place fs root files).map (·.node) ∧ (graph.nodes.map (·.id)).Nodup := by
  obtain ⟨root,start,files,hroot,hstart,hfiles,rfl⟩ := build_eq_ok_iff.mp h
  obtain ⟨hnormal,hnodup⟩ := Walk.sources_distinct hfs (FileSystem.resolve_ne_dotdot hstart) hfiles
  have hplace : place fs root files = placeFrom fs root [] files :=
    place_eq_placeFrom (hnormal.symm ▸ hnodup)
  refine ⟨root,start,files,hroot,hstart,hfiles,?_,rfl,?_⟩
  · rw [hplace, placeFrom_files, hnormal]
  · rw [List.map_map]
    exact (place_distinct files).ids

end WebAtlas.Graph
