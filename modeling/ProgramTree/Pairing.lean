import ProgramTree.Construction

namespace ProgramTree

/-- Fills the field at a position when it is absent, its sibling holds a node, and it has a
fallback. -/
def FieldRule.complete {ε : Type} (rule : FieldRule) (index : Nat) (fields : Fields) :
    Construct ε Fields :=
  match rule.shape.pair?, fields[index]? with
  | some ⟨sibling, some fallback⟩, some (name, .optional none) =>
    match (fields.lookup sibling).bind (·.nodes.head?) with
    | some present => do
      let stand ← Node.mark (fallback.symbolFor present)
      return fields.set index (name, .optional (some stand))
    | none => return fields
  | _, _ => return fields

namespace Kind

/-- Completes every half pair that has a fallback, in grammar order. -/
def completePairs {ε : Type} (kind : Kind) (fields : Fields) : Construct ε Fields :=
  kind.grammar.zipIdx.foldlM (fun current (rule, index) => rule.complete index current) fields

/-- After a field without a fallback was emptied, empties its optional sibling too. -/
def releaseSibling (kind : Kind) (removed : String) (fields : Fields) : Fields :=
  match (kind.rule? removed).bind (·.shape.pair?) with
  | some ⟨sibling, none⟩ =>
    if (fields.lookup removed).any (·.isPresent) then
      fields
    else
      fields.map fun
        | (name, .optional content) =>
          (name, .optional (if name == sibling then none else content))
        | field => field
  | _ => fields

end Kind

end ProgramTree
