import ProgramTree.Node

namespace ProgramTree

/-- One step from a node to a child; a list field needs an index, the others have none. -/
structure Step where
  field : String
  index : Option Nat
deriving DecidableEq, Repr

namespace Field

/-- The nodes of a field, each with its index where the field is a list. -/
def indexed {α : Type} : Field α → List (Option Nat × α)
  | one node => [(none, node)]
  | optional node => node.toList.map fun child => (none, child)
  | list nodes => nodes.zipIdx.map fun (child, index) => (some index, child)

theorem map_snd_indexed {α : Type} (field : Field α) : field.indexed.map (·.2) = field.nodes := by
  cases field <;> simp [indexed, nodes, Function.comp_def]

end Field

namespace Node

/-- The steps out of a node, in order, each with the child it leads to. -/
def branches (node : Node) : List (Step × Node) :=
  node.fields.flatMap fun (name, field) =>
    field.indexed.map fun (index, child) => (⟨name, index⟩, child)

theorem map_snd_branches (node : Node) : node.branches.map (·.2) = node.children := by
  simp [branches, children, List.map_flatMap, Function.comp_def, ← Field.map_snd_indexed]

theorem mem_children_of_branches {node child : Node} {step : Step}
    (h : (step, child) ∈ node.branches) : child ∈ node.children := by
  rw [← map_snd_branches]
  exact List.mem_map.mpr ⟨_, h, rfl⟩

/-- The steps from a root to the first place where it holds the target. -/
def pathTo? (target root : Node) : Option (List Step) :=
  if root.same target then
    some []
  else
    root.branches.attach.findSome? fun ⟨(step, child), _⟩ =>
      (pathTo? target child).map (step :: ·)
termination_by sizeOf root
decreasing_by exact sizeOf_lt_of_mem_children (mem_children_of_branches ‹_›)

def childAt? (node : Node) (step : Step) : Option Node :=
  match node.field? step.field, step.index with
  | some (.list nodes), some index => nodes[index]?
  | some (.one child), none => some child
  | some (.optional child), none => child
  | _, _ => none

def nodeAt? (root : Node) (path : List Step) : Option Node :=
  path.foldlM childAt? root

/-- The node that holds the first place of the target. -/
def parentOf? (target root : Node) : Option Node := do
  let path ← pathTo? target root
  if path.isEmpty then none else root.nodeAt? path.dropLast

end Node

end ProgramTree
