namespace ProgramTree

/-- What a named place of a node holds. -/
inductive Field (α : Type) where
  | one (node : α)
  | optional (node : Option α)
  | list (nodes : List α)
deriving DecidableEq, Repr, Inhabited

namespace Field

variable {α β : Type}

def nodes : Field α → List α
  | one node => [node]
  | optional node => node.toList
  | list nodes => nodes

def isPresent (field : Field α) : Bool :=
  !field.nodes.isEmpty

def map (f : α → β) : Field α → Field β
  | one node => one (f node)
  | optional node => optional (node.map f)
  | list nodes => list (nodes.map f)

theorem nodes_map (f : α → β) (field : Field α) : (field.map f).nodes = field.nodes.map f := by
  cases field with
  | one => rfl
  | optional node => cases node <;> rfl
  | list => rfl

end Field

end ProgramTree
