import ProgramTree.Declarations
import ProgramTree.NodeEquality

namespace ProgramTree

/-- Whether a conflict keeps the program from being run. -/
inductive Severity where
  | blocking | minor
deriving DecidableEq, Repr

namespace Severity

def tag : Severity → String
  | blocking => "Blocking"
  | minor => "Minor"

def ofTag? (tag : String) : Option Severity :=
  [blocking, minor].find? (·.tag == tag)

end Severity

inductive Conflict where
  /-- Sources that borrow from each other in a circle, in borrow order. The first borrow leads from
  the first source into the circle, the closing borrow from the last source back to the first. -/
  | borrowCycle (borrow closing : Node) (cycle : List Node)
  | disallowedInputs (structureNode : Node)
  /-- An argument for which the definition has no parameter. -/
  | unexpectedInput (definition evaluate input : Node)
  /-- A required parameter that a call leaves open. -/
  | missingInput (definition evaluate input : Node)
  | unknownBorrow (borrow : Node)
deriving Inhabited

namespace Conflict

def name : Conflict → String
  | borrowCycle .. => "BorrowCycle"
  | disallowedInputs .. => "DisallowedInputs"
  | unexpectedInput .. => "UnexpectedInput"
  | missingInput .. => "MissingInput"
  | unknownBorrow .. => "UnknownBorrow"

def code : Conflict → String
  | borrowCycle .. => "C0001"
  | disallowedInputs .. => "C0002"
  | unexpectedInput .. => "C0003"
  | missingInput .. => "C0004"
  | unknownBorrow .. => "C0005"

def severity : Conflict → Severity
  | borrowCycle .. | disallowedInputs .. | unexpectedInput .. | missingInput ..
  | unknownBorrow .. => .blocking

def isMinor (conflict : Conflict) : Bool :=
  conflict.severity == .minor

/-- The node that the conflict is reported on. -/
def primary : Conflict → Node
  | borrowCycle borrow .. | unknownBorrow borrow => borrow
  | disallowedInputs structureNode => structureNode
  | unexpectedInput _ _ input => input
  | missingInput _ evaluate _ => evaluate

def text (conflict : Conflict) : String :=
  s!"{conflict.code} {conflict.name} on node#{conflict.primary.id}"

/-- Equality of content, whatever numbers the nodes carry. -/
def equal : Conflict → Conflict → Bool
  | borrowCycle borrow closing cycle, borrowCycle borrow' closing' cycle' =>
    borrow == borrow' && closing == closing' && cycle == cycle'
  | disallowedInputs node, disallowedInputs node' => node == node'
  | unexpectedInput definition evaluate input, unexpectedInput definition' evaluate' input' =>
    definition == definition' && evaluate == evaluate' && input == input'
  | missingInput definition evaluate input, missingInput definition' evaluate' input' =>
    definition == definition' && evaluate == evaluate' && input == input'
  | unknownBorrow borrow, unknownBorrow borrow' => borrow == borrow'
  | _, _ => false

instance : BEq Conflict := ⟨equal⟩

end Conflict

end ProgramTree
