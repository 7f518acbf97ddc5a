import ProgramTree.Node

namespace ProgramTree.Node

/-- Visits the nodes of a stack in turn. The visitor says whether the children of a node are
visited before the rest of the stack. -/
def walkStack {σ : Type} (visit : σ → Node → σ × Bool) (state : σ) : List Node → σ
  | [] => state
  | node :: rest =>
    let (state, descend) := visit state node
    walkStack visit state (if descend then node.children ++ rest else rest)
termination_by stack => total size stack
decreasing_by
  have := node.size_eq
  split <;> simp <;> omega

/-- Visits a tree in pre-order, leaving out what lies below the nodes where the visitor stops. -/
def walk {σ : Type} (visit : σ → Node → σ × Bool) (state : σ) (root : Node) : σ :=
  walkStack visit state [root]

/-- Every node occurrence of the tree, the root first. -/
def descendants (root : Node) : List Node :=
  (walk (fun seen node => (seen.push node, true)) #[] root).toList

def descendantsUntil (stop : Node → Bool) (root : Node) : List Node :=
  (walk (fun seen node => (seen.push node, !stop node)) #[] root).toList

/-- The nodes that take part in evaluation; documentation is left out whole. -/
def evaluatedNodes (root : Node) : List Node :=
  (walk (fun seen node =>
    if node.purpose.isEvaluated then (seen.push node, true) else (seen, false)) #[] root).toList

/-- The outermost pieces of documentation. -/
def documentNodes (root : Node) : List Node :=
  (walk (fun seen node =>
    if node.purpose = .document then (seen.push node, false) else (seen, true)) #[] root).toList

def nodesWithPurpose (purpose : Purpose) (root : Node) : List Node :=
  root.descendants.filter (·.purpose = purpose)

end ProgramTree.Node
