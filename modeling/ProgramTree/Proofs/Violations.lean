import ProgramTree.Proofs.Assignments
import ProgramTree.Proofs.Executable

namespace ProgramTree

/-- What is wrong with a call of a definition: an argument that takes no parameter, or a required
parameter that no argument takes. -/
inductive Node.Mismatch (definition call : Node) (arguments : List Node) : Conflict → Prop
  | unexpected {slots : List (Option Nat)} {index : Nat} {argument : Node}
      (ha : Assignment definition.declaredInputs arguments slots)
      (hi : arguments[index]? = some argument) (hs : slots[index]? = some none) :
      Mismatch definition call arguments (.unexpectedInput definition call argument)
  | missing {slots : List (Option Nat)} {index : Nat} {parameter : Node}
      (ha : Assignment definition.declaredInputs arguments slots)
      (hp : definition.declaredInputs[index]? = some parameter)
      (hr : parameter.isRequired = true) (hs : some index ∉ slots) :
      Mismatch definition call arguments (.missingInput definition call parameter)

/-- What is wrong with a node under a chain of nodes, and the conflict that says so. -/
inductive Program.Violates (program : Program) (ancestors : List Node) (node : Node) :
    Conflict → Prop
  | disallowedInputs (hk : node.kind = .structureDefinition) (hc : ¬ node.Constructible) :
      Violates program ancestors node (.disallowedInputs node)
  | call {definition : Node} {arguments : List Node} {conflict : Conflict}
      (hc : program.Calls ancestors node definition arguments)
      (hm : definition.Mismatch node arguments conflict) :
      Violates program ancestors node conflict
  | unknownBorrow (hk : node.kind = .borrow) (hn : ¬ program.NamesSource node) :
      Violates program ancestors node (.unknownBorrow node)

theorem Node.mem_argumentConflicts_iff {definition call : Node} {arguments : List Node}
    {conflict : Conflict} :
    conflict ∈ argumentConflicts definition call arguments ↔
      definition.Mismatch call arguments conflict := by
  rw [argumentConflicts_eq, List.mem_append, List.mem_map, List.mem_map]
  have ha := assignment_assignSlots definition.declaredInputs arguments
  constructor
  · rintro (⟨argument, hm, rfl⟩ | ⟨parameter, hm, rfl⟩)
    · obtain ⟨index, hi, hs⟩ := mem_unplaced_iff.mp hm
      exact .unexpected ha hi hs
    · obtain ⟨index, hp, hr, hs⟩ := mem_unfilled_iff.mp hm
      exact .missing ha hp hr hs
  · rintro (⟨hslots, hi, hs⟩ | ⟨hslots, hp, hr, hs⟩)
    · rw [hslots.eq_assignSlots] at hs
      exact Or.inl ⟨_, mem_unplaced_iff.mpr ⟨_, hi, hs⟩, rfl⟩
    · rw [hslots.eq_assignSlots] at hs
      exact Or.inr ⟨_, mem_unfilled_iff.mpr ⟨_, hp, hr, hs⟩, rfl⟩

namespace Globals

variable {program : Program} {given : Node → Prop} {ancestors : List Node} {node : Node}
  {conflict : Conflict}

theorem mem_structureConflicts_iff (hk : node.kind = .structureDefinition) :
    conflict ∈ structureConflicts node ↔
      ¬ node.Constructible ∧ conflict = .disallowedInputs node := by
  rw [← Node.structureConflicts_eq_nil_iff hk]
  unfold structureConflicts
  split <;> simp

theorem mem_borrowConflicts_iff (hp : program.Keyed given) (h : node.WellFormed)
    (hk : node.kind = .borrow) :
    conflict ∈ (ofProgram program).borrowConflicts node ↔
      ¬ program.NamesSource node ∧ conflict = .unknownBorrow node := by
  rw [borrowConflicts_eq hp h hk]
  split <;> simp_all

/-- What is reported of a node is what is wrong with it. -/
theorem mem_conflictsAt_iff (hp : program.Keyed given) (h : node.WellFormed) :
    conflict ∈ (ofProgram program).conflictsAt (.around ancestors) node ↔
      program.Violates ancestors node conflict := by
  constructor
  · intro hm
    by_cases hc : node.kind = .evaluate ∨ node.kind = .binaryEvaluate
    · obtain ⟨definition, arguments, hcalls, hm⟩ := (mem_conflictsAt_of_calling h hc).mp hm
      exact .call hcalls (Node.mem_argumentConflicts_iff.mp hm)
    unfold conflictsAt at hm
    split at hm
    next hk =>
      obtain ⟨hn, rfl⟩ := (mem_structureConflicts_iff hk).mp hm
      exact .disallowedInputs hk hn
    next hk => exact (hc (Or.inl hk)).elim
    next hk => exact (hc (Or.inr hk)).elim
    next hk =>
      obtain ⟨hn, rfl⟩ := (mem_borrowConflicts_iff hp h hk).mp hm
      exact .unknownBorrow hk hn
    next => simp at hm
  · rintro (⟨hk, hn⟩ | ⟨hcalls, hm⟩ | ⟨hk, hn⟩)
    · simp only [conflictsAt, hk]
      exact (mem_structureConflicts_iff hk).mpr ⟨hn, rfl⟩
    · exact (mem_conflictsAt_of_calling h hcalls.kind_eq).mpr
        ⟨_, _, hcalls, Node.mem_argumentConflicts_iff.mpr hm⟩
    · simp only [conflictsAt, hk]
      exact (mem_borrowConflicts_iff hp h hk).mpr ⟨hn, rfl⟩

end Globals

end ProgramTree
