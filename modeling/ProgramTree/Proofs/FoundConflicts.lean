import ProgramTree.Validation

namespace ProgramTree

namespace Conflict

/-- Conflicts about the inputs of a structure or of a call. -/
def isOfInputs : Conflict → Bool
  | disallowedInputs .. | unexpectedInput .. | missingInput .. => true
  | borrowCycle .. | unknownBorrow .. => false

def isUnknownBorrow : Conflict → Bool
  | unknownBorrow .. => true
  | _ => false

theorem isUnknownBorrow_of_isOfInputs {conflict : Conflict} (h : conflict.isOfInputs = true) :
    conflict.isUnknownBorrow = false := by
  cases conflict <;> first | rfl | cases h

end Conflict

/-- What a call passes: the arguments of an evaluation, the right operand of an operator. -/
def Node.passed (node : Node) : List Node :=
  if node.kind = .evaluate then node.elements "inputs" else (node.single? "right").toList

namespace Globals

variable {globals : Globals} {scope : Scope} {node definition : Node} {conflict : Conflict}

/-- The definition that a node calls in a scope. -/
def called? (globals : Globals) (scope : Scope) (node : Node) : Option Node :=
  match node.kind with
  | .evaluate => (node.single? "fun").bind (globals.definitionOf? scope)
  | .binaryEvaluate => (node.single? "operator").bind (globals.operator? scope)
  | _ => none

/-- The conflicts that a node can have in a scope. -/
inductive Finds (globals : Globals) (scope : Scope) (node : Node) : Conflict → Prop
  | disallowedInputs (hk : node.kind = .structureDefinition) :
      Finds globals scope node (.disallowedInputs node)
  | unexpectedInput {definition input : Node} (hd : globals.called? scope node = some definition)
      (hi : input ∈ node.passed) : Finds globals scope node (.unexpectedInput definition node input)
  | missingInput {definition input : Node} (hd : globals.called? scope node = some definition)
      (hi : input ∈ definition.declaredInputs) :
      Finds globals scope node (.missingInput definition node input)
  | unknownBorrow (hk : node.kind = .borrow) : Finds globals scope node (.unknownBorrow node)

theorem eq_disallowedInputs_of_mem (h : conflict ∈ structureConflicts node) :
    conflict = .disallowedInputs node := by
  unfold structureConflicts at h
  split at h
  next => exact List.mem_singleton.mp h
  next => simp at h

theorem mem_argumentConflicts {arguments : List Node}
    (h : conflict ∈ argumentConflicts definition node arguments) :
    (∃ input ∈ arguments, conflict = .unexpectedInput definition node input) ∨
      ∃ input ∈ definition.declaredInputs, conflict = .missingInput definition node input := by
  rcases List.mem_append.mp h with h | h
  · obtain ⟨⟨input, slot⟩, hm, rfl⟩ := List.mem_map.mp h
    exact Or.inl ⟨input, (List.of_mem_zip (List.mem_filter.mp hm).1).1, rfl⟩
  · obtain ⟨⟨input, index⟩, hm, rfl⟩ := List.mem_map.mp h
    have hi := List.mem_zipIdx_iff_getElem?.mp (List.mem_filter.mp hm).1
    exact Or.inr ⟨input, List.mem_of_getElem? hi, rfl⟩

theorem finds_of_mem_evaluateConflicts (hk : node.kind = .evaluate)
    (h : conflict ∈ globals.evaluateConflicts scope node) : globals.Finds scope node conflict := by
  unfold evaluateConflicts at h
  split at h
  next definition hd =>
    have hcalled : globals.called? scope node = some definition := by simpa [called?, hk] using hd
    rcases mem_argumentConflicts h with ⟨input, hi, rfl⟩ | ⟨input, hi, rfl⟩
    · exact .unexpectedInput hcalled (by simpa [Node.passed, hk] using hi)
    · exact .missingInput hcalled hi
  next => simp at h

theorem finds_of_mem_binaryConflicts (hk : node.kind = .binaryEvaluate)
    (h : conflict ∈ globals.binaryConflicts scope node) : globals.Finds scope node conflict := by
  unfold binaryConflicts at h
  split at h
  next definition hd =>
    have hcalled : globals.called? scope node = some definition := by simpa [called?, hk] using hd
    split at h
    next =>
      obtain ⟨right, hr, rfl⟩ := List.mem_map.mp h
      exact .unexpectedInput hcalled (by simpa [Node.passed, hk] using hr)
    next hinputs =>
      obtain ⟨input, hi, rfl⟩ := List.mem_map.mp h
      refine .missingInput hcalled ?_
      rw [hinputs]
      exact List.mem_cons_of_mem _ (List.mem_filter.mp hi).1
  next => simp at h

theorem eq_unknownBorrow_of_mem (h : conflict ∈ globals.borrowConflicts node) :
    conflict = .unknownBorrow node := by
  unfold borrowConflicts at h
  split at h
  next =>
    split at h
    next => exact List.mem_singleton.mp h
    next => simp at h
  next => simp at h

theorem conflictsAt_of_borrow (hk : node.kind = .borrow) :
    globals.conflictsAt scope node = globals.borrowConflicts node := by
  simp [conflictsAt, hk]

/-- Nothing is reported on a node but what its kind of node can have. -/
theorem finds_of_mem_conflictsAt (h : conflict ∈ globals.conflictsAt scope node) :
    globals.Finds scope node conflict := by
  unfold conflictsAt at h
  split at h
  next hk =>
    rw [eq_disallowedInputs_of_mem h]
    exact .disallowedInputs hk
  next hk => exact finds_of_mem_evaluateConflicts hk h
  next hk => exact finds_of_mem_binaryConflicts hk h
  next hk =>
    rw [eq_unknownBorrow_of_mem h]
    exact .unknownBorrow hk
  next => simp at h

/-- A borrow is at most unknown. All other nodes have conflicts about inputs. -/
theorem isOfInputs_of_mem_conflictsAt (hk : node.kind ≠ .borrow)
    (h : conflict ∈ globals.conflictsAt scope node) : conflict.isOfInputs = true := by
  cases finds_of_mem_conflictsAt h with
  | disallowedInputs | unexpectedInput | missingInput => rfl
  | unknownBorrow hb => exact (hk hb).elim

theorem filter_isUnknownBorrow_of_kind_ne (hk : node.kind ≠ .borrow) :
    (globals.conflictsAt scope node).filter (·.isUnknownBorrow) = [] := by
  rw [List.filter_eq_nil_iff]
  intro conflict hm
  have hinputs := isOfInputs_of_mem_conflictsAt hk hm
  simp [Conflict.isUnknownBorrow_of_isOfInputs hinputs]

end Globals

end ProgramTree
