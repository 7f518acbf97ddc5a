import ProgramTree.Node

namespace ProgramTree

/-- What a node says by itself: everything but its number and the content of its children. -/
inductive Label where
  | token (symbol : Symbol) (text : String)
  | tree (kind : Kind) (layout : List (String × Field Unit))
deriving DecidableEq

namespace Node

def label : Node → Label
  | token _ symbol text => .token symbol text
  | tree _ kind fields => .tree kind (fields.map fun (name, field) => (name, field.map fun _ => ()))

/-- Equality of content. A node equals itself at once; otherwise the labels and the children are
compared, whatever numbers they carry. -/
def equal (a b : Node) : Bool :=
  a.same b ||
    (a.label == b.label &&
      (a.children.zip b.children).attach.all fun ⟨(c, d), _⟩ => equal c d)
termination_by sizeOf a
decreasing_by exact sizeOf_lt_of_mem_children (List.of_mem_zip ‹_›).1

instance : BEq Node := ⟨equal⟩

theorem equal_iff (a b : Node) :
    a.equal b = true ↔
      a.id = b.id ∨
        a.label = b.label ∧ ∀ pair ∈ a.children.zip b.children, pair.1.equal pair.2 = true := by
  rw [equal]
  simp [same]

end Node

end ProgramTree
