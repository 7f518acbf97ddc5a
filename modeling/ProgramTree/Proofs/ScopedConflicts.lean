import ProgramTree.Validation
import ProgramTree.Proofs.LexicalScope

namespace ProgramTree

theorem Scope.around_concat (ancestors : List Node) (parent : Node) :
    around (ancestors ++ [parent]) = parent.frame?.toList ++ around ancestors := by
  unfold around
  cases h : parent.frame? <;> simp [h]

namespace Globals

variable {globals : Globals} {ancestors : List Node} {node child : Node}

/-- The conflicts at the places of a tree that stands under a chain of nodes. -/
def conflictsWithin (globals : Globals) (ancestors : List Node) (root : Node) : List Conflict :=
  (root.scopedWithin (.around ancestors)).flatMap fun (node, scope) =>
    globals.conflictsAt scope node

/-- The conflicts of a tree are those of its root, then those of the trees of its children. -/
theorem conflictsWithin_eq (globals : Globals) (ancestors : List Node) (root : Node) :
    globals.conflictsWithin ancestors root =
      globals.conflictsAt (.around ancestors) root ++
        root.children.flatMap (globals.conflictsWithin (ancestors ++ [root])) := by
  unfold conflictsWithin
  rw [Node.scopedWithin_eq, List.flatMap_cons, List.flatMap_assoc, Scope.around_concat]

theorem sourceConflicts_eq (globals : Globals) (source : Node) :
    globals.sourceConflicts source = globals.conflictsWithin [] source := by
  rw [sourceConflicts, conflictsWithin, Node.scopedNodes_eq, Node.scopedWithin]
  simp [Scope.around_nil]

end Globals

/-- The kinds that documentation is made of. -/
def Kind.isProse : Kind → Bool
  | docs | doc | words | reference | token => true
  | _ => false

def Permit.isProse : Permit → Bool
  | .kind k => k.isProse
  | .symbol _ => true
  | .expression | .definition => false

theorem Kind.permits_isProse (kind : Kind) (h : kind.isProse = true) :
    ∀ rule ∈ kind.grammar, ∀ permit ∈ rule.shape.permits, permit.isProse = true := by
  revert h
  cases kind <;> decide

theorem Permit.isProse_of_admits {permit : Permit} {node : Node} (hp : permit.isProse = true)
    (h : permit.admits node = true) : node.kind.isProse = true := by
  cases permit with
  | kind kind => rwa [beq_iff_eq.mp h]
  | symbol symbol =>
    cases node with
    | token => rfl
    | tree => cases h
  | expression | definition => cases hp

/-- Below a piece of documentation there is documentation only. -/
theorem Node.WellFormed.isProse_of_mem_children {node child : Node} (h : node.WellFormed)
    (hk : node.kind.isProse = true) (hc : child ∈ node.children) : child.kind.isProse = true := by
  obtain ⟨rule, hr, content, -, hm, ha⟩ := h.exists_rule hc
  obtain ⟨permit, hp, hadmits⟩ := ha.admitted child hm
  exact Permit.isProse_of_admits (node.kind.permits_isProse hk rule hr permit hp) hadmits

namespace Globals

theorem conflictsAt_of_isProse (globals : Globals) (scope : Scope) {node : Node}
    (hk : node.kind.isProse = true) : globals.conflictsAt scope node = [] := by
  unfold conflictsAt
  split <;> first | rfl | simp_all [Kind.isProse]

/-- Documentation has no conflicts, wherever it stands and whatever names it mentions. -/
theorem conflictsWithin_of_isProse (globals : Globals) (ancestors : List Node) {root : Node}
    (h : root.WellFormed) (hk : root.kind.isProse = true) :
    globals.conflictsWithin ancestors root = [] := by
  induction root using Node.induction_children generalizing ancestors with
  | step root ih =>
    rw [conflictsWithin_eq, globals.conflictsAt_of_isProse _ hk, List.nil_append,
      List.flatMap_eq_nil_iff]
    intro child hc
    exact ih child hc _ (h.of_mem_children hc) (h.isProse_of_mem_children hk hc)

end Globals

end ProgramTree
