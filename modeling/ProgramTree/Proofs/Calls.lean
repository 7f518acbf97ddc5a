import ProgramTree.Validation
import ProgramTree.Proofs.CallResolution
import ProgramTree.Proofs.FoundConflicts
import ProgramTree.Proofs.PositionalArguments

namespace ProgramTree

/-- A node under a chain of nodes calls a definition with arguments. An operator has its left
operand as the subject, and its right operand is its one argument. -/
inductive Program.Calls (program : Program) (ancestors : List Node) (node definition : Node) :
    List Node → Prop
  | evaluate {callee : Node} (hk : node.kind = .evaluate) (hf : node.single? "fun" = some callee)
      (hc : program.Callee ancestors callee definition) :
      Calls program ancestors node definition (node.elements "inputs")
  | operator {operator right : Node} {name : String} (hk : node.kind = .binaryEvaluate)
      (ho : node.single? "operator" = some operator) (hn : operator.text? = some name)
      (hr : node.single? "right" = some right) (hd : program.Denotes ancestors name definition) :
      Calls program ancestors node definition [right]

theorem Program.Calls.kind_eq {program : Program} {ancestors arguments : List Node}
    {node definition : Node} (h : program.Calls ancestors node definition arguments) :
    node.kind = .evaluate ∨ node.kind = .binaryEvaluate := by
  rcases h with ⟨hk, _, _⟩ | ⟨hk, _, _, _, _⟩
  · exact Or.inl hk
  · exact Or.inr hk

theorem Program.not_calls {program : Program} {ancestors arguments : List Node}
    {node definition : Node} (he : node.kind ≠ .evaluate) (hb : node.kind ≠ .binaryEvaluate) :
    ¬ program.Calls ancestors node definition arguments :=
  fun h => h.kind_eq.elim he hb

namespace Globals

variable {program : Program} {ancestors : List Node} {node : Node} {globals : Globals}
  {scope : Scope}

theorem exists_right (h : node.WellFormed) (hk : node.kind = .binaryEvaluate) :
    ∃ right, node.single? "right" = some right ∧ right.kind ≠ .input := by
  obtain ⟨right, hs, _, ha⟩ := h.exists_single?_of_kind hk "right" .expression (by decide)
  refine ⟨right, hs, fun hi => ?_⟩
  simp [Permit.admits, hi, Kind.isExpression, Kind.isDefinition] at ha

theorem binaryConflicts_eq (globals : Globals) (scope : Scope) {right : Node}
    (hr : node.single? "right" = some right) (hn : right.kind ≠ .input) :
    globals.binaryConflicts scope node =
      match (node.single? "operator").bind (globals.operator? scope) with
      | some definition => argumentConflicts definition node [right]
      | none => [] := by
  unfold binaryConflicts
  cases (node.single? "operator").bind (globals.operator? scope) with
  | none => rfl
  | some definition =>
    simp only [Node.argumentConflicts_singleton hn, hr]
    rfl

/-- Evaluations and operations alike report what is left over when what they pass is matched with
the inputs of what they call. -/
theorem conflictsAt_of_calling (h : node.WellFormed)
    (hk : node.kind = .evaluate ∨ node.kind = .binaryEvaluate) :
    globals.conflictsAt scope node =
      match globals.called? scope node with
      | some definition => argumentConflicts definition node node.passed
      | none => [] := by
  rcases hk with hk | hk
  · simp only [conflictsAt, called?, Node.passed, hk, if_pos]
    rfl
  · obtain ⟨right, hr, hi⟩ := exists_right h hk
    simp [conflictsAt, called?, Node.passed, hk, hr, binaryConflicts_eq globals scope hr hi]

theorem calls_iff {definition : Node} {arguments : List Node} (h : node.WellFormed) :
    program.Calls ancestors node definition arguments ↔
      (ofProgram program).called? (.around ancestors) node = some definition ∧
        node.passed = arguments := by
  constructor
  · rintro (⟨hk, hf, hc⟩ | ⟨hk, ho, hn, hr, hd⟩)
    · simp [called?, Node.passed, hk, hf, definitionOf?_eq_some_iff.mpr hc]
    · simp [called?, Node.passed, hk, ho, operator?, hn, hr, resolve?_eq_some_iff.mpr hd]
  · rintro ⟨hc, rfl⟩
    unfold called? at hc
    split at hc
    next hk =>
      obtain ⟨callee, hf, hd⟩ := Option.bind_eq_some_iff.mp hc
      rw [Node.passed, if_pos hk]
      exact .evaluate hk hf (definitionOf?_eq_some_iff.mp hd)
    next hk =>
      obtain ⟨operator, ho, hd⟩ := Option.bind_eq_some_iff.mp hc
      obtain ⟨name, hn, hd⟩ := Option.bind_eq_some_iff.mp hd
      obtain ⟨right, hr, _⟩ := exists_right h hk
      have hpassed : node.passed = [right] := by simp [Node.passed, hk, hr]
      rw [hpassed]
      exact .operator hk ho hn hr (resolve?_eq_some_iff.mp hd)
    next => cases hc

/-- What is reported of a node that calls is about the one definition that it calls. -/
theorem mem_conflictsAt_of_calling (h : node.WellFormed)
    (hk : node.kind = .evaluate ∨ node.kind = .binaryEvaluate) {conflict : Conflict} :
    conflict ∈ (ofProgram program).conflictsAt (.around ancestors) node ↔
      ∃ definition arguments, program.Calls ancestors node definition arguments ∧
        conflict ∈ argumentConflicts definition node arguments := by
  simp only [conflictsAt_of_calling h hk, calls_iff h]
  cases (ofProgram program).called? (.around ancestors) node <;> simp

theorem conflictsAt_eq_nil_iff_of_calling (h : node.WellFormed)
    (hk : node.kind = .evaluate ∨ node.kind = .binaryEvaluate) :
    (ofProgram program).conflictsAt (.around ancestors) node = [] ↔
      ∀ definition arguments, program.Calls ancestors node definition arguments →
        definition.Accepts arguments := by
  simp only [conflictsAt_of_calling h hk, calls_iff h]
  cases (ofProgram program).called? (.around ancestors) node <;>
    simp [Node.argumentConflicts_eq_nil_iff]

end Globals

end ProgramTree
