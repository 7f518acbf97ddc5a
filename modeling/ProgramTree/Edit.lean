import ProgramTree.Pairing

namespace ProgramTree

inductive Edit where
  /-- Puts a replacement where the target stands. Without a replacement the target is removed;
  without a target an absent field is filled, or a list extended. -/
  | child (target replacement : Option Node)
  | list (nodes : List Node)

inductive EditError where
  | unknownField (kind : Kind) (field : String)
  | targetNotFound (kind : Kind) (field : String)
  | notAList (kind : Kind) (field : String)
  | notInTree
  | removeRoot
  | shape (error : ShapeError)
deriving DecidableEq, Repr

def EditError.message : EditError → String
  | unknownField kind field => s!"{kind.name} has no field `{field}`"
  | targetNotFound kind field => s!"{kind.name}.{field} does not hold the original node"
  | notAList kind field => s!"{kind.name}.{field} is not a list field"
  | notInTree => "node is not part of the tree being edited"
  | removeRoot => "cannot remove the root of the tree being edited"
  | shape error => error.message

/-- Whether two handles are both absent or denote one node. -/
def Node.sameOption : Option Node → Option Node → Bool
  | some a, some b => a.same b
  | none, none => true
  | _, _ => false

/-- The content of a field after an edit. In a list the first place of the target counts. -/
def Field.edit (kind : Kind) (name : String) (content : Field Node) (edit : Edit) :
    Except EditError (Field Node) :=
  match content, edit with
  | .list _, .list nodes => .ok (.list nodes)
  | _, .list _ => .error (.notAList kind name)
  | .one node, .child target replacement =>
    if target.any (·.same node) then
      match replacement with
      | some new => .ok (.one new)
      | none => .error (.shape (.missing kind name))
    else
      .error (.targetNotFound kind name)
  | .optional node, .child target replacement =>
    if Node.sameOption target node then
      .ok (.optional replacement)
    else
      .error (.targetNotFound kind name)
  | .list nodes, .child none replacement => .ok (.list (nodes ++ replacement.toList))
  | .list nodes, .child (some target) replacement =>
    match nodes.findIdx? (·.same target) with
    | some index =>
      .ok (.list (nodes.take index ++ replacement.toList ++ nodes.drop (index + 1)))
    | none => .error (.targetNotFound kind name)

/-- A new node from fields that are put into the places of its kind and checked. -/
def Kind.assemble (kind : Kind) (fields : Fields) : Construct EditError Node := do
  let arranged ← MonadExcept.ofExcept ((kind.arrange fields).mapError .shape)
  MonadExcept.ofExcept ((kind.check arranged).mapError .shape)
  return .tree (← freshId) kind arranged

/-- A node of the same kind with one field edited. The other fields are carried over, a half pair
is completed or released, and the result is checked against the grammar. -/
def Node.replace (node : Node) (name : String) (edit : Edit) : Construct EditError Node := do
  let kind := node.kind
  let some content := node.field? name | throw (.unknownField kind name)
  let edited ← MonadExcept.ofExcept (content.edit kind name edit)
  let released := kind.releaseSibling name (Fields.assign name edited node.fields)
  kind.assemble (← kind.completePairs released)

end ProgramTree
