import ProgramTree.Arguments
import ProgramTree.Globals

namespace ProgramTree

/-- An interface cannot be constructed, so it takes no inputs. -/
def structureConflicts (node : Node) : List Conflict :=
  if node.isInterface && !node.declaredInputs.isEmpty then [.disallowedInputs node] else []

namespace Globals

def evaluateConflicts (globals : Globals) (scope : Scope) (node : Node) : List Conflict :=
  match (node.single? "fun").bind (globals.definitionOf? scope) with
  | some definition => argumentConflicts definition node (node.elements "inputs")
  | none => []

/-- The left operand is the subject of an operator, and the right one fills its first input. -/
def binaryConflicts (globals : Globals) (scope : Scope) (node : Node) : List Conflict :=
  match (node.single? "operator").bind (globals.operator? scope) with
  | some definition =>
    match definition.declaredInputs with
    | [] =>
      (node.single? "right").toList.map fun right => .unexpectedInput definition node right
    | _ :: rest =>
      (rest.filter Node.isRequired).map fun parameter => .missingInput definition node parameter
  | none => []

def borrowConflicts (globals : Globals) (node : Node) : List Conflict :=
  match node.borrowedSource? with
  | some name => if (globals.source? name).isNone then [.unknownBorrow node] else []
  | none => []

def conflictsAt (globals : Globals) (scope : Scope) (node : Node) : List Conflict :=
  match node.kind with
  | .structureDefinition => structureConflicts node
  | .evaluate => globals.evaluateConflicts scope node
  | .binaryEvaluate => globals.binaryConflicts scope node
  | .borrow => globals.borrowConflicts node
  | _ => []

def sourceConflicts (globals : Globals) (source : Node) : List Conflict :=
  source.scopedNodes.flatMap fun (node, scope) => globals.conflictsAt scope node

end Globals

end ProgramTree
