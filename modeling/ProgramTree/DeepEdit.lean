import ProgramTree.Edit
import ProgramTree.Path

namespace ProgramTree.Node

/-- The nodes along a path, each with the step taken from it. -/
def spine? (root : Node) : List Step → Option (List (Node × Step))
  | [] => some []
  | step :: path => do
    let child ← root.childAt? step
    let below ← spine? child path
    return (root, step) :: below

/-- Puts what became of a child into its parent: from the old child and the new one to the old
parent and the new one. -/
def rebuildParent : Node × Step → Node × Option Node → Construct EditError (Node × Option Node)
  | (parent, step), (old, new) => do
    let rebuilt ← parent.replace step.field (.child (some old) new)
    return (parent, some rebuilt)

/-- Replaces a node deep in a tree, or removes it, and rebuilds at most `levels` of its ancestors.
The answer is the highest node that was rebuilt, or the replacement itself. -/
def rebuild (root target : Node) (replacement : Option Node) (levels : Nat) :
    Construct EditError Node := do
  let some path := pathTo? target root | throw .notInTree
  let some spine := root.spine? path | throw .notInTree
  let (_, new) ←
    (spine.drop (path.length - levels)).foldrM rebuildParent (target, replacement)
  match new with
  | some result => return result
  | none => throw .removeRoot

/-- Replaces a node deep in a tree, or removes it, and rebuilds all its ancestors. -/
def replaceWithin (root target : Node) (replacement : Option Node) : Construct EditError Node :=
  match pathTo? target root with
  | some path => root.rebuild target replacement path.length
  | none => throw .notInTree

end ProgramTree.Node
