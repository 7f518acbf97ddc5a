import ProgramTree.Proofs.TranslatedConflicts

namespace ProgramTree

def BorrowEdge.map (f : Node → Node) (edge : BorrowEdge) : BorrowEdge :=
  ⟨f edge.borrow, edge.target⟩

def BorrowGraph.map (f : Node → Node) (graph : BorrowGraph) : BorrowGraph :=
  ⟨graph.sources.map f, graph.edges.map (List.map (.map f))⟩

def Visit.map (f : Node → Node) (visit : Visit) : Visit :=
  { visit with via := visit.via.map f }

def ClosedCycle.map (f : Node → Node) (closed : ClosedCycle) : ClosedCycle :=
  ⟨closed.circle.map (.map f), closed.edge.map f⟩

def Search.map (f : Node → Node) (search : Search) : Search :=
  { search with path := search.path.map (.map f), closed := search.closed.map (.map f) }

variable {f : Node → Node} {graph : BorrowGraph}

namespace Search

theorem edgesFrom_map (f : Node → Node) (graph : BorrowGraph) (index : Nat) :
    (graph.map f).edgesFrom index = (graph.edgesFrom index).map (.map f) := by
  rw [BorrowGraph.edgesFrom, BorrowGraph.edgesFrom, BorrowGraph.map, List.getElem?_map]
  cases graph.edges[index]? <;> rfl

theorem enter_map (f : Node → Node) (search : Search) (vertex : Nat) (via : Option Node) :
    (search.map f).enter vertex (via.map f) = (search.enter vertex via).map f := by
  simp [enter, map, Visit.map]

theorem follow_map (f : Node → Node) (search : Search) (edge : BorrowEdge) :
    (search.map f).follow (edge.map f) = (search.follow edge).map f := by
  have hmark : (search.map f).marks[(edge.map f).target]? = search.marks[edge.target]? := rfl
  rw [follow, follow, hmark]
  split
  next => exact enter_map f search edge.target (some edge.borrow)
  next depth => simp [map, ClosedCycle.map, List.map_drop]
  next => rfl

/-- A search looks at the positions of the sources only, and carries their borrows along. -/
theorem step_map (f : Node → Node) (graph : BorrowGraph) (search : Search) :
    (search.map f).step (graph.map f) = (search.step graph).map f := by
  obtain ⟨starts, marks, path, closed⟩ := search
  cases path with
  | nil =>
    cases starts with
    | nil => rfl
    | cons start starts =>
      by_cases hm : marks[start]? = some .unvisited
      · have henter := enter_map f ⟨starts, marks, [], closed⟩ start none
        simpa [step, map, hm] using henter
      · simp [step, map, hm]
  | cons visit outer =>
    have hedge : ((graph.map f).edgesFrom visit.vertex)[visit.next]? =
        ((graph.edgesFrom visit.vertex)[visit.next]?).map (.map f) := by
      rw [edgesFrom_map, List.getElem?_map]
    cases he : (graph.edgesFrom visit.vertex)[visit.next]? with
    | none =>
      rw [he, Option.map_none] at hedge
      simp [step, map, hedge, he, Visit.map]
    | some edge =>
      have hfollow := follow_map f ⟨starts, marks, visit.advance :: outer, closed⟩ edge
      rw [he, Option.map_some] at hedge
      simpa [step, map, hedge, he, Visit.advance, Visit.map] using hfollow

theorem isFinished_map (f : Node → Node) (search : Search) :
    (search.map f).isFinished = search.isFinished := by
  simp [isFinished, map]

theorem run_map (f : Node → Node) (graph : BorrowGraph) (search : Search) :
    (search.map f).run (graph.map f) = (search.run graph).map f := by
  fun_induction Search.run graph search with
  | case1 search hf => rw [run, if_pos ((isFinished_map f search).trans hf)]
  | case2 search hf ih =>
    have hf' : ¬ (search.map f).isFinished = true := by rwa [isFinished_map]
    rw [run, if_neg hf', step_map, ih]

theorem initial_map (f : Node → Node) (graph : BorrowGraph) :
    initial (graph.map f) = (initial graph).map f := by
  simp [initial, map, BorrowGraph.sourceCount, BorrowGraph.map]

end Search

namespace BorrowGraph

theorem closedCycles_map (f : Node → Node) (graph : BorrowGraph) :
    (graph.map f).closedCycles = graph.closedCycles.map (.map f) := by
  rw [closedCycles, closedCycles, Search.initial_map, Search.run_map]
  rfl

theorem conflictOf_map (f : Node → Node) (graph : BorrowGraph) (closed : ClosedCycle) :
    (graph.map f).conflictOf (closed.map f) = (graph.conflictOf closed).map f := by
  have hborrow : ((closed.map f).circle[1]?.bind (·.via)).getD (closed.map f).edge.borrow =
      f ((closed.circle[1]?.bind (·.via)).getD closed.edge.borrow) := by
    rw [ClosedCycle.map, List.getElem?_map]
    cases closed.circle[1]? with
    | none => rfl
    | some visit => cases hv : visit.via <;> simp [Visit.map, hv, BorrowEdge.map]
  have hcycle : (closed.map f).circle.filterMap
        (fun visit => (graph.map f).sources[visit.vertex]?) =
      (closed.circle.filterMap fun visit => graph.sources[visit.vertex]?).map f := by
    simp [ClosedCycle.map, List.filterMap_map, List.map_filterMap, BorrowGraph.map, Visit.map,
      Function.comp_def]
  rw [conflictOf, conflictOf, hborrow, hcycle]
  rfl

theorem cycleConflicts_map (f : Node → Node) (graph : BorrowGraph) :
    (graph.map f).cycleConflicts = graph.cycleConflicts.map (.map f) := by
  rw [cycleConflicts, cycleConflicts, closedCycles_map, List.map_map, List.map_map]
  exact List.map_congr_left fun closed _ => conflictOf_map f graph closed

end BorrowGraph

namespace Translation

variable {name : String → String} (ht : Translation name f) {program : Program}
  (hp : ∀ source ∈ program.sources, source.WellFormed)

include ht hp

theorem edgesOf {source : Node} (h : source.WellFormed) :
    BorrowGraph.edgesOf (program.translate name f) (f source) =
      (BorrowGraph.edgesOf program source).map (.map f) := by
  rw [BorrowGraph.edgesOf, BorrowGraph.edgesOf, ht.borrows, List.filterMap_map,
    List.map_filterMap]
  refine List.filterMap_congr fun borrow hb => ?_
  have hname : (f borrow).borrowedSource? = borrow.borrowedSource?.map name :=
    ht.borrowedSource? (h.of_mem_borrows hb)
  simp only [Function.comp_apply, hname]
  cases borrow.borrowedSource? with
  | none => rfl
  | some text =>
    simp only [Option.map_some, Option.bind_some, ht.indexOf? hp, Option.map_map]
    rfl

theorem borrowGraph :
    BorrowGraph.ofProgram (program.translate name f) = (BorrowGraph.ofProgram program).map f := by
  rw [BorrowGraph.ofProgram, BorrowGraph.ofProgram, BorrowGraph.map, Program.sources_translate,
    List.map_map, List.map_map]
  congr 1
  exact List.map_congr_left fun source hs => ht.edgesOf hp (hp source hs)

theorem borrowCycles :
    (program.translate name f).borrowCycles = program.borrowCycles.map (.map f) := by
  rw [Program.borrowCycles, Program.borrowCycles, ht.borrowGraph hp,
    BorrowGraph.cycleConflicts_map]

/-- The analysis of a translated program is the analysis of the program, translated. -/
theorem conflicts_analyze :
    (program.translate name f).analyze.conflicts = program.analyze.conflicts.map (.map f) := by
  have hsources : (program.translate name f).sources.flatMap
        (Globals.ofProgram (program.translate name f)).sourceConflicts =
      (program.sources.flatMap (Globals.ofProgram program).sourceConflicts).map (.map f) := by
    rw [Program.sources_translate, List.flatMap_map, List.map_flatMap]
    exact List.flatMap_congr fun source hs => ht.sourceConflicts hp (hp source hs)
  rw [Program.analyze, Program.analyze, List.map_append, hsources, ht.borrowCycles hp]

end Translation

end ProgramTree
