import ProgramTree.Proofs.Erasure
import ProgramTree.Proofs.Translations

namespace ProgramTree

/-- A change of the numbers of nodes and of the names in them. -/
structure Relabelling where
  number : Nat → Nat
  name : String → String

namespace Relabelling

def text (change : Relabelling) (symbol : Symbol) (text : String) : String :=
  if symbol.isNaming then change.name text else text

/-- Makes every number zero and keeps the names. -/
def erasing : Relabelling :=
  ⟨fun _ => 0, id⟩

end Relabelling

namespace Node

mutual

/-- The same tree with other numbers, and with another text in every name and operator. -/
def relabel (change : Relabelling) : Node → Node
  | token id symbol text => token (change.number id) symbol (change.text symbol text)
  | tree id kind fields => tree (change.number id) kind (relabelFields change fields)

def relabelFields (change : Relabelling) : List (String × Field Node) → List (String × Field Node)
  | [] => []
  | (name, content) :: rest => (name, relabelField change content) :: relabelFields change rest

def relabelField (change : Relabelling) : Field Node → Field Node
  | .one node => .one (relabel change node)
  | .optional none => .optional none
  | .optional (some node) => .optional (some (relabel change node))
  | .list nodes => .list (relabelAll change nodes)

def relabelAll (change : Relabelling) : List Node → List Node
  | [] => []
  | node :: rest => relabel change node :: relabelAll change rest

end

variable {change : Relabelling} {node child : Node} {name : String}

theorem relabelAll_eq (change : Relabelling) (nodes : List Node) :
    relabelAll change nodes = nodes.map (relabel change) := by
  induction nodes with
  | nil => rfl
  | cons node rest ih => rw [relabelAll, ih, List.map_cons]

theorem relabelField_eq (change : Relabelling) (content : Field Node) :
    relabelField change content = content.map (relabel change) := by
  cases content with
  | one => rfl
  | optional node => cases node <;> rfl
  | list nodes => rw [relabelField, relabelAll_eq, Field.map]

theorem relabelFields_eq (change : Relabelling) (fields : List (String × Field Node)) :
    relabelFields change fields =
      fields.map fun (name, content) => (name, content.map (relabel change)) := by
  induction fields with
  | nil => rfl
  | cons field rest ih => rw [relabelFields, ih, relabelField_eq, List.map_cons]

/-- Without numbers the names stay. -/
theorem relabel_erasing (node : Node) : node.relabel .erasing = node.erase := by
  induction node using induction_children with
  | step node ih =>
    cases node with
    | token id symbol text => simp [relabel, erase, Relabelling.text, Relabelling.erasing]
    | tree id kind fields =>
      rw [relabel, erase, relabelFields_eq, eraseFields_eq]
      congr 1
      refine List.map_congr_left ?_
      rintro ⟨name, content⟩ hf
      have hcontent : content.map (relabel .erasing) = content.map erase :=
        Field.map_congr fun child hc => ih child (List.mem_flatMap.mpr ⟨_, hf, hc⟩)
      simp only [hcontent]

section Reading

theorem fields_relabel (change : Relabelling) (node : Node) :
    (node.relabel change).fields =
      node.fields.map fun (name, content) => (name, content.map (relabel change)) := by
  cases node with
  | token => rfl
  | tree id kind fields => exact relabelFields_eq change fields

@[simp]
theorem kind_relabel (change : Relabelling) (node : Node) :
    (node.relabel change).kind = node.kind := by
  cases node <;> rfl

theorem children_relabel (change : Relabelling) (node : Node) :
    (node.relabel change).children = node.children.map (relabel change) := by
  rw [children, children, fields_relabel, List.flatMap_map, List.map_flatMap]
  exact List.flatMap_congr fun field _ => Field.nodes_map (relabel change) field.2

theorem field?_relabel (change : Relabelling) (node : Node) (name : String) :
    (node.relabel change).field? name = (node.field? name).map (Field.map (relabel change)) := by
  rw [field?, fields_relabel, lookup_map_content, ← field?]

theorem single?_relabel (change : Relabelling) (node : Node) (name : String) :
    (node.relabel change).single? name = (node.single? name).map (relabel change) :=
  single?_of_field?_map (field?_relabel change node name)

theorem elements_relabel (change : Relabelling) (node : Node) (name : String) :
    (node.relabel change).elements name = (node.elements name).map (relabel change) :=
  elements_of_field?_map (field?_relabel change node name)

theorem text?_relabel (h : node.isNaming = true) :
    (node.relabel change).text? = node.text?.map change.name := by
  cases node with
  | token id symbol text =>
    have hs : symbol.isNaming = true := h
    simp [relabel, text?, Relabelling.text, hs]
  | tree => rfl

end Reading

theorem WellFormed.relabel (h : node.WellFormed) (change : Relabelling) :
    (node.relabel change).WellFormed := by
  have hs : ∀ node : Node, (node.relabel change).symbol? = node.symbol? := by
    intro node
    cases node <;> rfl
  induction h with
  | token id symbol text => exact .token ..
  | tree hk hf hc ih =>
    rw [Node.relabel, relabelFields_eq]
    refine .tree hk (hf.map (kind_relabel change) hs) fun other ho => ?_
    rw [← relabelFields_eq, ← Node.relabel, children_relabel] at ho
    obtain ⟨child, hm, rfl⟩ := List.mem_map.mp ho
    exact ih child hm

end Node

/-- A relabelling keeps every node at its place. -/
theorem Relabelling.translation (change : Relabelling) (hc : Function.Injective change.name) :
    Translation change.name (Node.relabel change) where
  injective := hc
  kind := Node.kind_relabel change
  single? node field _ := Node.single?_relabel change node field
  elements node field _ := Node.elements_relabel change node field
  text? _ h := Node.text?_relabel h
  children node _ :=
    ⟨fun _ => true, by simp, by rw [Node.children_relabel, List.filter_eq_self.mpr (by simp)]⟩

theorem Relabelling.translation_erasing : Translation id Node.erase := by
  have hf : Node.relabel .erasing = Node.erase := funext Node.relabel_erasing
  exact hf ▸ erasing.translation Function.injective_id

end ProgramTree
