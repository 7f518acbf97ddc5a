import Mathlib.Data.Prod.Lex
import ProgramTree.Proofs.CallReports
import ProgramTree.Proofs.ConflictSubjects
import ProgramTree.Proofs.Violations

namespace ProgramTree

/-- The node whose visit finds a conflict: the structure, the call or the borrow. -/
def Conflict.reporter? : Conflict → Option Node
  | borrowCycle .. => none
  | disallowedInputs structureNode => some structureNode
  | unexpectedInput _ evaluate _ | missingInput _ evaluate _ => some evaluate
  | unknownBorrow borrow => some borrow

theorem Globals.Finds.reporter? {globals : Globals} {scope : Scope} {node : Node}
    {conflict : Conflict} (h : globals.Finds scope node conflict) :
    conflict.reporter? = some node := by
  cases h <;> rfl

theorem pairwise_zipIdx {α : Type} (items : List α) :
    items.zipIdx.Pairwise fun first second => first.2 < second.2 := by
  have hrange : (List.range' 0 items.length).Pairwise (· < ·) := List.pairwise_lt_range'
  rw [← List.zipIdx_map_snd] at hrange
  exact List.pairwise_map.mp hrange

theorem flatMap_fst_zipIdx {α β : Type} (items : List α) (f : α → List β) :
    (items.zipIdx.flatMap fun entry => f entry.1) = items.flatMap f := by
  have hflat := List.flatMap_map (f := Prod.fst) (g := f) items.zipIdx
  rw [List.zipIdx_map_fst] at hflat
  exact hflat.symm

namespace Program

variable {program : Program} {entry : (Nat × Nat) × Conflict}

/-- The conflicts of nodes with their places: the position of the source, and that of the node in
the source in pre-order. -/
def located (program : Program) : List ((Nat × Nat) × Conflict) :=
  program.sources.zipIdx.flatMap fun (source, index) =>
    source.occurrences.zipIdx.flatMap fun (occurrence, position) =>
      ((Globals.ofProgram program).conflictsAt (.around occurrence.ancestors)
        occurrence.node).map ((index, position), ·)

theorem map_located (program : Program) :
    program.located.map (·.2) =
      program.sources.flatMap (Globals.ofProgram program).sourceConflicts := by
  have hsource : ∀ entry ∈ program.sources.zipIdx,
      ((entry.1.occurrences.zipIdx.flatMap fun (occurrence, position) =>
        ((Globals.ofProgram program).conflictsAt (.around occurrence.ancestors)
          occurrence.node).map ((entry.2, position), ·)).map (·.2)) =
        (Globals.ofProgram program).sourceConflicts entry.1 := by
    intro entry _
    rw [Globals.sourceConflicts_eq_flatMap, ← flatMap_fst_zipIdx entry.1.occurrences,
      List.map_flatMap]
    simp
  rw [located, List.map_flatMap, ← flatMap_fst_zipIdx program.sources]
  exact List.flatMap_congr hsource

theorem pairwise_located (program : Program) :
    program.located.Pairwise fun first second => toLex first.1 ≤ toLex second.1 := by
  rw [located, List.pairwise_flatMap]
  constructor
  · rintro ⟨source, index⟩ -
    rw [List.pairwise_flatMap]
    constructor
    · rintro ⟨occurrence, position⟩ -
      rw [List.pairwise_map]
      exact List.pairwise_of_forall fun _ _ => le_rfl
    · refine (pairwise_zipIdx source.occurrences).imp ?_
      rintro ⟨_, position⟩ ⟨_, position'⟩ hlt entry he other ho
      obtain ⟨_, -, rfl⟩ := List.mem_map.mp he
      obtain ⟨_, -, rfl⟩ := List.mem_map.mp ho
      exact Prod.Lex.toLex_le_toLex.mpr (Or.inr ⟨rfl, hlt.le⟩)
  · refine (pairwise_zipIdx program.sources).imp ?_
    rintro ⟨_, index⟩ ⟨_, index'⟩ hlt entry he other ho
    obtain ⟨_, -, he⟩ := List.mem_flatMap.mp he
    obtain ⟨_, -, rfl⟩ := List.mem_map.mp he
    obtain ⟨_, -, ho⟩ := List.mem_flatMap.mp ho
    obtain ⟨_, -, rfl⟩ := List.mem_map.mp ho
    exact Prod.Lex.toLex_le_toLex.mpr (Or.inl hlt)

theorem mem_located : entry ∈ program.located ↔
    ∃ source occurrence, program.sources[entry.1.1]? = some source ∧
      source.occurrences[entry.1.2]? = some occurrence ∧
      entry.2 ∈ (Globals.ofProgram program).conflictsAt (.around occurrence.ancestors)
        occurrence.node := by
  constructor
  · intro h
    obtain ⟨⟨source, index⟩, hs, h⟩ := List.mem_flatMap.mp h
    obtain ⟨⟨occurrence, position⟩, ho, h⟩ := List.mem_flatMap.mp h
    obtain ⟨conflict, hc, rfl⟩ := List.mem_map.mp h
    exact ⟨source, occurrence, List.mem_zipIdx_iff_getElem?.mp hs,
      List.mem_zipIdx_iff_getElem?.mp ho, hc⟩
  · rintro ⟨source, occurrence, hs, ho, hc⟩
    refine List.mem_flatMap.mpr ⟨(source, entry.1.1), List.mem_zipIdx_iff_getElem?.mpr hs, ?_⟩
    refine List.mem_flatMap.mpr ⟨(occurrence, entry.1.2), List.mem_zipIdx_iff_getElem?.mpr ho, ?_⟩
    exact List.mem_map_of_mem hc

/-- Each conflict stands at the place of the node that it is found at. -/
theorem reporter?_of_mem_located (h : entry ∈ program.located) :
    ∃ source node, program.sources[entry.1.1]? = some source ∧
      source.descendants[entry.1.2]? = some node ∧ entry.2.reporter? = some node := by
  obtain ⟨source, occurrence, hs, ho, hc⟩ := mem_located.mp h
  refine ⟨source, occurrence.node, hs, ?_, (Globals.finds_of_mem_conflictsAt hc).reporter?⟩
  rw [← Node.map_node_occurrences, List.getElem?_map, ho]
  rfl

/-- The conflicts at the place of a node are what is wrong with the node. -/
theorem mem_located_iff_violates (hk : program.Keyed Node.WellFormed) {index position : Nat}
    {conflict : Conflict} :
    ((index, position), conflict) ∈ program.located ↔
      ∃ source occurrence, program.sources[index]? = some source ∧
        source.occurrences[position]? = some occurrence ∧
        program.Violates occurrence.ancestors occurrence.node conflict := by
  rw [mem_located]
  refine exists_congr fun source => exists_congr fun occurrence => ?_
  refine and_congr_right fun hs => and_congr_right fun ho => ?_
  have hnode := Node.mem_descendants_of_mem_occurrences (List.mem_of_getElem? ho)
  have hw := (hk.mem_sources (List.mem_of_getElem? hs)).1
  exact Globals.mem_conflictsAt_iff hk (hw.of_mem_descendants hnode)

/-- Each circle of borrows is reported at one of its borrows. -/
theorem exists_reportedAt_of_way {index : Nat} {places : List (Nat × Nat)} (hne : places ≠ [])
    (hw : (BorrowGraph.ofProgram program).Way index places index) :
    ∃ place ∈ places, ∃ conflict ∈ program.borrowCycles,
      (BorrowGraph.ofProgram program).ReportedAt conflict place := by
  obtain ⟨place, hp, hc⟩ :=
    hw.exists_mem_closingPlaces (BorrowGraph.inRange_ofProgram program) hne
  obtain ⟨closed, hm, hplace⟩ := List.mem_filterMap.mp hc
  obtain ⟨place', hplace', hr⟩ :=
    BorrowGraph.reportedAt_conflictOf (BorrowGraph.mem_closedCycles_sound hm)
  cases hplace.symm.trans hplace'
  exact ⟨place, hp, _, List.mem_map_of_mem hm, hr⟩

/-- Conflicts come in the order of the sources and, within a source, in the pre-order of the nodes
that they are found at, and the circles come last. Each violation of a node is among them at the
place of the node, and nothing else is, and each circle of borrows is reported at one of its
borrows. In a program where no node stands twice, each conflict is about something else. -/
theorem conflicts_in_order (program : Program) :
    program.analyze.conflicts = program.located.map (·.2) ++ program.borrowCycles ∧
    (program.located.Pairwise fun first second => toLex first.1 ≤ toLex second.1) ∧
    (∀ entry ∈ program.located, ∃ source node, program.sources[entry.1.1]? = some source ∧
      source.descendants[entry.1.2]? = some node ∧ entry.2.reporter? = some node) ∧
    (∀ conflict ∈ program.borrowCycles, conflict.reporter? = none) ∧
    (program.Reachable Node.WellFormed → ∀ index position conflict,
      ((index, position), conflict) ∈ program.located ↔
        ∃ source occurrence, program.sources[index]? = some source ∧
          source.occurrences[position]? = some occurrence ∧
          program.Violates occurrence.ancestors occurrence.node conflict) ∧
    (∀ index places, places ≠ [] → (BorrowGraph.ofProgram program).Way index places index →
      ∃ place ∈ places, ∃ conflict ∈ program.borrowCycles,
        (BorrowGraph.ofProgram program).ReportedAt conflict place) ∧
    ((program.nodes.map Node.id).Nodup →
      (program.analyze.conflicts.map Conflict.subject).Nodup) := by
  refine ⟨by rw [map_located, analyze], pairwise_located program,
    fun entry he => reporter?_of_mem_located he, fun conflict hc => ?_,
    fun hr _ _ _ => mem_located_iff_violates hr.keyed,
    fun _ _ hne hw => exists_reportedAt_of_way hne hw, fun h => ?_⟩
  · obtain ⟨closed, _, rfl⟩ := List.mem_map.mp hc
    rfl
  rw [analyze, List.map_append, List.nodup_append]
  refine ⟨nodup_subjects_of_nodes h, nodup_subjects_of_borrowCycles h, fun first hf second hs => ?_⟩
  obtain ⟨conflict, hc, rfl⟩ := List.mem_map.mp hf
  obtain ⟨circle, hm, rfl⟩ := List.mem_map.mp hs
  obtain ⟨source, _, hc⟩ := List.mem_flatMap.mp hc
  obtain ⟨_, _, hfinds⟩ := Globals.exists_finds_of_mem hc
  obtain ⟨closed, _, rfl⟩ := List.mem_map.mp hm
  cases hfinds <;> simp [Conflict.subject, BorrowGraph.conflictOf]

section Faulty

/-- The interface `f(x)`, whose function `g` has no expression. -/
def interfaceWithInput : Node :=
  .tree 26 .structureDefinition
    [("docs", .optional none), ("kind", .one (.token 6 .type "•")),
     ("names", .one (.tree 8 .names [("names", .list [.token 7 .name "f"])])),
     ("open", .optional (some (.token 9 .evalOpen "("))),
     ("inputs", .list [parameterOf 10 ["x"] none]),
     ("close", .optional (some (.token 17 .evalClose ")"))),
     ("expression", .optional (some (.tree 25 .block
       [("open", .optional none),
        ("statements", .list [.tree 24 .functionDefinition
          [("docs", .optional none), ("fun", .one (.token 18 .function "ƒ")),
           ("names", .one (.tree 20 .names [("names", .list [.token 19 .name "g"])])),
           ("open", .one (.token 21 .evalOpen "(")), ("inputs", .list []),
           ("close", .one (.token 22 .evalClose ")")), ("expression", .optional none)]]),
        ("close", .optional none)])))]

/-- The call `f(y: 1)`. -/
def misnamedCall : Node :=
  callWith 34 (.tree 28 .reference [("name", .one (.token 27 .name "f"))])
    [namedArgument 31 "y" (numberOf 29 "1")]

/-- The source `a`, which borrows from `z` and from itself. -/
def faultySource : Node :=
  .tree 40 .source
    [("names", .one (.tree 38 .names [("names", .list [.token 37 .name "a"])])),
     ("borrows", .list [borrowOf 0 "z", borrowOf 3 "a"]),
     ("body", .one (.tree 39 .block
       [("open", .optional none), ("statements", .list [interfaceWithInput, misnamedCall]),
        ("close", .optional none)]))]

/-- A program with a conflict of each kind. -/
def faulty : Program :=
  ⟨[("a", faultySource)]⟩

theorem reachable_faulty : faulty.Reachable Node.WellFormed := by
  have hmade : ofSources faulty.sources = .ok faulty := rfl
  refine .ofSources (fun source hs => ?_) hmade
  cases List.mem_singleton.mp hs
  decide +kernel

theorem conflicts_in_order_faulty :
    faulty.Reachable Node.WellFormed ∧ (faulty.nodes.map Node.id).Nodup ∧
    faulty.located.map (fun entry => (entry.1, entry.2.subject)) =
      [((0, 3), .borrow 2), ((0, 10), .structureDefinition 26), ((0, 26), .argument 33),
       ((0, 26), .parameter 36 16)] ∧
    faulty.borrowCycles.map Conflict.subject = [.closingBorrow 5] ∧
    ¬ interfaceWithInput.Constructible ∧
    ((0, 10), .disallowedInputs interfaceWithInput) ∈ faulty.located ∧
    (faulty.analyze.conflicts.map Conflict.subject).Nodup := by
  have hnodup : (faulty.nodes.map Node.id).Nodup := by decide +kernel
  have hinterface : ¬ interfaceWithInput.Constructible := by
    rw [← Node.structureConflicts_eq_nil_iff rfl]
    decide +kernel
  have hplace : (faultySource.occurrences[10]?).map (·.node) = some interfaceWithInput := by
    with_unfolding_all rfl
  obtain ⟨occurrence, ho, hn⟩ := Option.map_eq_some_iff.mp hplace
  obtain ⟨-, -, -, -, hlocated, -, hsubjects⟩ := conflicts_in_order faulty
  have hreported : ((0, 10), .disallowedInputs interfaceWithInput) ∈ faulty.located := by
    refine (hlocated reachable_faulty 0 10 _).mpr ⟨faultySource, occurrence, rfl, ho, ?_⟩
    rw [hn]
    exact .disallowedInputs rfl hinterface
  exact ⟨reachable_faulty, hnodup, by decide +kernel, by decide +kernel, hinterface, hreported,
    hsubjects hnodup⟩

end Faulty

end Program

end ProgramTree
