import ProgramTree.Conflict

namespace ProgramTree

/-- The parameter that an argument takes, when those in `taken` are gone: a named argument the
first one that declares its name, any other argument the first one left. -/
def slotFor (parameters : List Node) (taken : List Nat) (argument : Node) : Option Nat :=
  if argument.kind = .input then
    (argument.inputName?.bind fun name => parameters.findIdx? (·.declares name)).filter
      fun index => !taken.contains index
  else
    (List.range parameters.length).find? fun index => !taken.contains index

def assignSlots (parameters : List Node) : List Nat → List Node → List (Option Nat)
  | _, [] => []
  | taken, argument :: rest =>
    let slot := slotFor parameters taken argument
    slot :: assignSlots parameters (slot.toList ++ taken) rest

/-- The conflicts of a call: each argument without a parameter, then each required parameter
without an argument. -/
def argumentConflicts (definition call : Node) (arguments : List Node) : List Conflict :=
  let parameters := definition.declaredInputs
  let slots := assignSlots parameters [] arguments
  let unexpected := (arguments.zip slots).filter (·.2.isNone)
  let unfilled := parameters.zipIdx.filter fun (parameter, index) =>
    !slots.contains (some index) && parameter.isRequired
  unexpected.map (fun (argument, _) => .unexpectedInput definition call argument) ++
    unfilled.map fun (parameter, _) => .missingInput definition call parameter

end ProgramTree
