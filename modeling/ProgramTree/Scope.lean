import ProgramTree.Declarations
import ProgramTree.NameTable

namespace ProgramTree

/-- What a local name stands for. -/
inductive Binding where
  /-- A definition in an enclosing block. -/
  | definition (node : Node)
  /-- A parameter or a bound value, which is no known definition. -/
  | value
deriving Inhabited

/-- The names bound around a node, the innermost frame first. -/
abbrev Scope := List (NameTable Binding)

namespace Scope

def depth (scope : Scope) : Nat :=
  scope.length

def lookup (scope : Scope) (name : String) : Option Binding :=
  scope.findSome? (·.get? name)

end Scope

/-- A turn of a scoped walk: to visit a node, or to close the frame of the node whose children have
been visited. -/
inductive ScopeTurn where
  | enter (node : Node)
  | leave

/-- The number of turns that a turn leads to, at most. -/
def ScopeTurn.cost : ScopeTurn → Nat
  | enter node => 2 * node.size
  | leave => 1

theorem ScopeTurn.total_cost_enter (nodes : List Node) :
    total ScopeTurn.cost (nodes.map ScopeTurn.enter) = 2 * total Node.size nodes := by
  induction nodes with
  | nil => rfl
  | cons node rest ih =>
    simp only [List.map_cons, total_cons, ih, ScopeTurn.cost]
    omega

namespace Node

/-- What a statement of a block binds its names to, if it binds any. -/
def statementBinding? (statement : Node) : Option Binding :=
  if statement.kind.isDefinition then some (.definition statement)
  else if statement.kind = .bind then some .value
  else none

/-- The names that a node binds over its children: a definition its parameters, a block the names
of its definitions and bound values. Other nodes bind nothing and open no frame. -/
def frame? (node : Node) : Option (NameTable Binding) :=
  if node.kind.isDefinition then
    some (node.declaredInputs.foldl
      (fun frame input => frame.bindAll input.declaredNames .value) .empty)
  else if node.kind = .block then
    some (node.statements.foldl
      (fun frame statement => frame.bindAll? statement.declaredNames statement.statementBinding?)
      .empty)
  else
    none

/-- Takes the turns of a stack one by one. A node is visited with the open frames; its own frame is
opened before its children and closed by a turn laid beneath them. -/
def scopedStack (seen : Array (Node × Scope)) (scope : Scope) :
    List ScopeTurn → Array (Node × Scope)
  | [] => seen
  | .leave :: rest => scopedStack seen scope.tail rest
  | .enter node :: rest =>
    let seen := seen.push (node, scope)
    match node.frame? with
    | some frame => scopedStack seen (frame :: scope) (node.children.map .enter ++ .leave :: rest)
    | none => scopedStack seen scope (node.children.map .enter ++ rest)
termination_by stack => total ScopeTurn.cost stack
decreasing_by
  · simp [ScopeTurn.cost]
  all_goals
    have := node.size_eq
    simp only [total_cons, total_append, ScopeTurn.total_cost_enter, ScopeTurn.cost]
    omega

/-- Every node occurrence of a tree in pre-order, with the scope around it. -/
def scopedNodes (root : Node) : List (Node × Scope) :=
  (scopedStack #[] [] [.enter root]).toList

end Node

end ProgramTree
