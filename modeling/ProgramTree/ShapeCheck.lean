import ProgramTree.Layout

namespace ProgramTree

namespace FieldRule

def allow (rule : FieldRule) (kind : Kind) (node : Node) : Except ShapeError Unit :=
  if rule.shape.permits.any (·.admits node) then
    .ok ()
  else
    .error (.notPermitted kind rule.name rule.shape.permits (.ofNode node))

/-- Checks one field. An absent field looks for its sibling by name among all the fields. -/
def check (rule : FieldRule) (kind : Kind) (fields : Fields) (content : Field Node) :
    Except ShapeError Unit :=
  match rule.shape, content with
  | .one _, .one node => rule.allow kind node
  | .optional .., .optional (some node) => rule.allow kind node
  | .optional _ none, .optional none => .ok ()
  | .optional _ (some pair), .optional none =>
    if (fields.lookup pair.sibling).any (·.isPresent) then
      .error (.unpaired kind rule.name pair.sibling)
    else
      .ok ()
  | .list nonEmpty _, .list nodes =>
    if nonEmpty && nodes.isEmpty then
      .error (.emptyList kind rule.name)
    else
      nodes.forM (rule.allow kind)
  | shape, _ => .error (.fieldArity kind rule.name shape.arity)

end FieldRule

/-- Checks the fields against the grammar of a kind, in order, and reports the first fault. -/
def Kind.check (kind : Kind) (fields : Fields) : Except ShapeError Unit :=
  if fields.length = kind.grammar.length then
    (kind.grammar.zip fields).forM fun (rule, _, content) => rule.check kind fields content
  else
    .error (.fieldCount kind kind.grammar.length fields.length)

end ProgramTree
