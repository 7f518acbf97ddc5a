import ProgramTree.Findings
import ProgramTree.Proofs.BorrowPlaces
import ProgramTree.Proofs.Calls
import ProgramTree.Proofs.CycleCover

namespace ProgramTree

/-- A borrow names a source that is in the program, by any of its names. -/
def Program.NamesSource (program : Program) (borrow : Node) : Prop :=
  ∃ name, borrow.borrowedSource? = some name ∧
    ∃ source ∈ program.sources, source.declares name = true

theorem Program.namesSource_iff {program : Program} {borrow : Node} :
    program.NamesSource borrow ↔
      borrow.borrowedSource?.any (fun name => program.sources.any (·.declares name)) = true := by
  simp [NamesSource, Option.any_eq_true]

instance (program : Program) (borrow : Node) : Decidable (program.NamesSource borrow) :=
  decidable_of_iff _ Program.namesSource_iff.symm

/-- A structure that takes inputs has an expression for every function in its body. -/
def Node.Constructible (node : Node) : Prop :=
  node.declaredInputs ≠ [] → ∀ body, node.single? "expression" = some body →
    ∀ statement ∈ body.statements, statement.kind = .functionDefinition →
      ∃ expression, statement.single? "expression" = some expression

def Program.BorrowsFrom (program : Program) (i j : Nat) : Prop :=
  ∃ source borrow name target, program.sources[i]? = some source ∧
    borrow ∈ source.descendants ∧ borrow.kind = .borrow ∧ borrow.borrowedSource? = some name ∧
    program.SourceNamed name j target

/-- A program that can be run: every borrow names a source, no source borrows from itself through
others, no interface takes inputs, and every call is accepted by the definition that it calls. -/
structure Program.Runnable (program : Program) : Prop where
  named : ∀ source ∈ program.sources, ∀ borrow ∈ source.descendants, borrow.kind = .borrow →
    program.NamesSource borrow
  acyclic : ∀ index, ¬ Relation.TransGen program.BorrowsFrom index index
  constructible : ∀ source ∈ program.sources, ∀ node ∈ source.descendants,
    node.kind = .structureDefinition → node.Constructible
  accepted : ∀ source ∈ program.sources, ∀ occurrence ∈ source.occurrences,
    ∀ definition arguments,
      program.Calls occurrence.ancestors occurrence.node definition arguments →
        definition.Accepts arguments

namespace Node

variable {node : Node}

theorem isInterface_iff (hk : node.kind = .structureDefinition) :
    node.isInterface = true ↔ ∃ body, node.single? "expression" = some body ∧
      ∃ statement ∈ body.statements, statement.kind = .functionDefinition ∧
        statement.single? "expression" = none := by
  simp only [isInterface, abstractFunctions, if_pos hk]
  cases node.single? "expression" with
  | none => simp
  | some body => simp [isAbstractFunction]

theorem constructible_iff (hk : node.kind = .structureDefinition) :
    node.Constructible ↔ (node.declaredInputs ≠ [] → node.isInterface = false) := by
  refine forall_congr' fun _ => ?_
  rw [← Bool.not_eq_true, isInterface_iff hk]
  constructor
  · rintro h ⟨body, hb, statement, hs, hf, hn⟩
    obtain ⟨expression, he⟩ := h body hb statement hs hf
    simp [hn] at he
  · intro h body hb statement hs hf
    rw [← Option.isSome_iff_exists, ← Option.ne_none_iff_isSome]
    exact fun hn => h ⟨body, hb, statement, hs, hf, hn⟩

theorem structureConflicts_eq_nil_iff (hk : node.kind = .structureDefinition) :
    structureConflicts node = [] ↔ node.Constructible := by
  rw [constructible_iff hk, structureConflicts]
  cases node.isInterface <;> cases node.declaredInputs <;> simp

end Node

namespace Globals

variable {program : Program} {ancestors : List Node} {node : Node} {given : Node → Prop}

theorem isSome_source? (program : Program) (name : String) :
    ((ofProgram program).source? name).isSome = (program.indexOf? name).isSome := by
  change ((program.indexOf? name).bind (program.sources[·]?)).isSome = _
  cases hi : program.indexOf? name with
  | none => rfl
  | some index => simp [Program.indexOf?_lt hi]

theorem exists_borrowedSource? (h : node.WellFormed) (hk : node.kind = .borrow) :
    ∃ name, node.borrowedSource? = some name := by
  obtain ⟨token, hs, _, ha⟩ := h.exists_single?_of_kind hk "source" (.symbol .name) (by decide)
  obtain ⟨name, hn⟩ := Permit.exists_text?_of_admits ha
  exact ⟨name, by simp [Node.borrowedSource?, hk, hs, hn]⟩

/-- A borrow is reported exactly when it names no source. -/
theorem borrowConflicts_eq (hp : program.Keyed given) (h : node.WellFormed)
    (hk : node.kind = .borrow) :
    (ofProgram program).borrowConflicts node =
      if program.NamesSource node then [] else [.unknownBorrow node] := by
  obtain ⟨name, hn⟩ := exists_borrowedSource? h hk
  have hdeclared : ((ofProgram program).source? name).isSome = true ↔ program.NamesSource node := by
    rw [isSome_source?, Program.isSome_indexOf? hp]
    simp [Program.NamesSource, hn]
  simp only [← hdeclared, borrowConflicts, hn]
  cases (ofProgram program).source? name <;> rfl

theorem conflictsAt_eq_nil_iff (hp : program.Keyed given) (h : node.WellFormed) :
    (ofProgram program).conflictsAt (.around ancestors) node = [] ↔
      (node.kind = .borrow → program.NamesSource node) ∧
      (node.kind = .structureDefinition → node.Constructible) ∧
      ∀ definition arguments, program.Calls ancestors node definition arguments →
        definition.Accepts arguments := by
  unfold conflictsAt
  split
  next hk =>
    simp [hk, Node.structureConflicts_eq_nil_iff hk, Program.not_calls]
  next hk => simpa [conflictsAt, hk] using conflictsAt_eq_nil_iff_of_calling h (Or.inl hk)
  next hk => simpa [conflictsAt, hk] using conflictsAt_eq_nil_iff_of_calling h (Or.inr hk)
  next hk => simp [hk, borrowConflicts_eq hp h hk, Program.not_calls]
  next hs he hb hw =>
    exact iff_of_true rfl ⟨fun hk => (hw hk).elim, fun hk => (hs hk).elim,
      fun _ _ hc => (Program.not_calls he hb hc).elim⟩

theorem sourceConflicts_eq_nil_iff (hp : program.Keyed given) {source : Node}
    (h : source.WellFormed) :
    (ofProgram program).sourceConflicts source = [] ↔
      (∀ node ∈ source.descendants, node.kind = .borrow → program.NamesSource node) ∧
      (∀ node ∈ source.descendants, node.kind = .structureDefinition → node.Constructible) ∧
      ∀ occurrence ∈ source.occurrences, ∀ definition arguments,
        program.Calls occurrence.ancestors occurrence.node definition arguments →
          definition.Accepts arguments := by
  have hnode : ∀ occurrence ∈ source.occurrences, occurrence.node.WellFormed := by
    intro occurrence ho
    refine h.of_mem_descendants ?_
    rw [← Node.map_node_occurrences]
    exact List.mem_map_of_mem ho
  rw [sourceConflicts, Node.scopedNodes_eq, List.flatMap_map, List.flatMap_eq_nil_iff,
    ← Node.map_node_occurrences, List.forall_mem_map, List.forall_mem_map]
  constructor
  · intro hc
    have hall := fun occurrence ho =>
      (conflictsAt_eq_nil_iff hp (hnode occurrence ho)).mp (hc occurrence ho)
    exact ⟨fun o ho => (hall o ho).1, fun o ho => (hall o ho).2.1, fun o ho => (hall o ho).2.2⟩
  · rintro ⟨hb, hs, ha⟩ occurrence ho
    exact (conflictsAt_eq_nil_iff hp (hnode occurrence ho)).mpr
      ⟨hb occurrence ho, hs occurrence ho, ha occurrence ho⟩

end Globals

theorem Conflict.isMinor_eq_false (conflict : Conflict) : conflict.isMinor = false := by
  cases conflict <;> rfl

theorem Findings.isExecutable_iff {findings : Findings} :
    findings.isExecutable = true ↔ findings.conflicts = [] := by
  simp [isExecutable, hasBlocking, Conflict.isMinor_eq_false, List.eq_nil_iff_forall_not_mem]

namespace Program

variable {program : Program}

theorem borrowsFrom_iff (hk : program.Keyed Node.WellFormed) {i j : Nat} :
    program.BorrowsFrom i j ↔ (BorrowGraph.ofProgram program).Leads i j := by
  constructor
  · rintro ⟨source, borrow, name, target, hs, hb, hkind, hn, ht⟩
    obtain ⟨hw, hsource, _⟩ := hk.mem_sources (List.mem_of_getElem? hs)
    refine ⟨⟨borrow, j⟩, BorrowGraph.mem_edgesFrom_ofProgram.mpr ⟨source, name, hs, ?_, hn, ?_⟩,
      rfl⟩
    · exact (hw.mem_borrows_iff hsource).mpr ⟨hb, hkind⟩
    · exact hk.indexOf?_eq_some_iff.mpr ⟨target, ht⟩
  · rintro ⟨edge, he, rfl⟩
    obtain ⟨source, name, hs, hb, hn, hi⟩ := BorrowGraph.mem_edgesFrom_ofProgram.mp he
    obtain ⟨hw, hsource, _⟩ := hk.mem_sources (List.mem_of_getElem? hs)
    obtain ⟨target, ht⟩ := hk.indexOf?_eq_some_iff.mp hi
    obtain ⟨hd, hkind⟩ := (hw.mem_borrows_iff hsource).mp hb
    exact ⟨source, edge.borrow, name, target, hs, hd, hkind, hn, ht⟩

theorem borrowCycles_eq_nil_iff_acyclic (program : Program) :
    program.borrowCycles = [] ↔ (BorrowGraph.ofProgram program).Acyclic :=
  List.map_eq_nil_iff.trans
    (BorrowGraph.closedCycles_eq_nil_iff (BorrowGraph.inRange_ofProgram program))

theorem borrowCycles_eq_nil_iff (hk : program.Keyed Node.WellFormed) :
    program.borrowCycles = [] ↔ ∀ index, ¬ Relation.TransGen program.BorrowsFrom index index := by
  have he : program.BorrowsFrom = (BorrowGraph.ofProgram program).Leads := by
    ext i j
    exact borrowsFrom_iff hk
  rw [he]
  exact borrowCycles_eq_nil_iff_acyclic program

/-- The analysis lets exactly those programs run that can be run. -/
theorem isExecutable_analyze_iff (hr : program.Reachable Node.WellFormed) :
    program.analyze.isExecutable = true ↔ program.Runnable := by
  have hk := hr.keyed
  rw [Findings.isExecutable_iff, analyze, List.append_eq_nil_iff, List.flatMap_eq_nil_iff,
    borrowCycles_eq_nil_iff hk]
  have hsource := fun source (hs : source ∈ program.sources) =>
    Globals.sourceConflicts_eq_nil_iff hk (hk.mem_sources hs).1
  constructor
  · rintro ⟨hc, ha⟩
    have hall := fun source hs => (hsource source hs).mp (hc source hs)
    exact ⟨fun s hs => (hall s hs).1, ha, fun s hs => (hall s hs).2.1,
      fun s hs => (hall s hs).2.2⟩
  · intro h
    exact ⟨fun source hs => (hsource source hs).mpr
      ⟨h.named source hs, h.constructible source hs, h.accepted source hs⟩, h.acyclic⟩

/-- A source with the function `f(x)` of `shadowedParameter` and the call `f(1)`. -/
def calling : Program :=
  ⟨[("a", .tree 40 .source
    [("names", .one (.tree 31 .names [("names", .list [.token 30 .name "a"])])),
     ("borrows", .list []),
     ("body", .one (.tree 39 .block
       [("open", .optional none),
        ("statements", .list
          [.shadowedParameter,
           .tree 38 .evaluate
            [("fun", .one (.tree 33 .reference [("name", .one (.token 32 .name "f"))])),
             ("open", .one (.token 34 .evalOpen "(")),
             ("inputs", .list [.tree 36 .numberLiteral [("number", .one (.token 35 .number "1"))]]),
             ("close", .one (.token 37 .evalClose ")"))]]),
        ("close", .optional none)]))])]⟩

theorem reachable_calling : calling.Reachable Node.WellFormed := by
  have h : ofSources calling.sources = .ok calling := rfl
  refine .ofSources (fun source hs => ?_) h
  cases List.mem_singleton.mp hs
  decide +kernel

theorem runnable_calling :
    calling.Reachable Node.WellFormed ∧ calling.analyze.isExecutable = true ∧ calling.Runnable := by
  have he : calling.analyze.isExecutable = true := by decide +kernel
  exact ⟨reachable_calling, he, (isExecutable_analyze_iff reachable_calling).mp he⟩

end Program

end ProgramTree
