import ProgramTree.Program
import ProgramTree.Scope

namespace ProgramTree

/-- A program with its top-level definitions by name. -/
structure Globals where
  program : Program
  definitions : NameTable Node
deriving Inhabited

namespace Globals

/-- The first definition of a name, in the order of sources and statements, stands. -/
def ofProgram (program : Program) : Globals where
  program := program
  definitions :=
    program.sources.foldl
      (fun table source =>
        (source.topLevel.filter (·.kind.isDefinition)).foldl
          (fun table definition => table.bindAll definition.declaredNames definition) table)
      .empty

def source? (globals : Globals) (name : String) : Option Node :=
  globals.program.get? name

def definition? (globals : Globals) (name : String) : Option Node :=
  globals.definitions.get? name

def definitionCount (globals : Globals) : Nat :=
  globals.definitions.size

/-- The definition that a name denotes: that of the innermost binding around it, and at the top
level where there is none. A name bound to a value denotes no definition. -/
def resolve? (globals : Globals) (scope : Scope) (name : String) : Option Node :=
  match scope.lookup name with
  | some (.definition node) => some node
  | some .value => none
  | none => globals.definition? name

/-- The definition that an expression denotes: the one a reference names, or the expression itself
when it is a definition. -/
def definitionOf? (globals : Globals) (scope : Scope) (expression : Node) : Option Node :=
  if expression.kind = .reference then
    ((expression.single? "name").bind Node.text?).bind (globals.resolve? scope)
  else if expression.kind.isDefinition then
    some expression
  else
    none

def operator? (globals : Globals) (scope : Scope) (operator : Node) : Option Node :=
  operator.text?.bind (globals.resolve? scope)

end Globals

end ProgramTree
