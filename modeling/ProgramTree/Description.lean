import ProgramTree.Grammar
import ProgramTree.Quotation
import ProgramTree.Outline

namespace ProgramTree

namespace Node

mutual

/-- A node without its number: a token as its class and quoted text, any other node as a record. -/
def outline : Node → Outline
  | token _ symbol text => .atom (symbol.tag ++ "(" ++ quoted text ++ ")")
  | tree _ kind fields => .record kind.name (outlineFields fields)

def outlineFields : Fields → List (String × Outline)
  | [] => []
  | (name, field) :: rest => (name, outlineField field) :: outlineFields rest

def outlineField : Field Node → Outline
  | .one node => .call "One" [outline node]
  | .optional none => .call "Optional" [.option none]
  | .optional (some node) => .call "Optional" [.option (some (outline node))]
  | .list nodes => .call "List" [.sequence (outlineList nodes)]

def outlineList : List Node → List Outline
  | [] => []
  | node :: rest => outline node :: outlineList rest

end

end Node

namespace Permit

def outline : Permit → Outline
  | kind k => .call "Kind" [.atom k.name]
  | symbol s => .call "Sym" [.atom s.tag]
  | expression => .atom "Expression"
  | definition => .atom "Definition"

def outlines (permits : List Permit) : Outline :=
  .sequence (permits.map outline)

end Permit

def Pair.outline (pair : Pair) : Outline :=
  .record "Pair" [("sibling", .atom (quoted pair.sibling)), ("make", .bool pair.fallback.isSome)]

def Shape.outline : Shape → Outline
  | one permits => .call "One" [Permit.outlines permits]
  | optional permits pair =>
    .record "Optional"
      [("permits", Permit.outlines permits), ("pair", .option (pair.map Pair.outline))]
  | list nonEmpty permits =>
    .record "List" [("non_empty", .bool nonEmpty), ("permits", Permit.outlines permits)]

def FieldRule.outline (rule : FieldRule) : Outline :=
  .record "FieldSpec" [("name", .atom (quoted rule.name)), ("shape", rule.shape.outline)]

end ProgramTree
