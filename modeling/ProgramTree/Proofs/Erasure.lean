import ProgramTree.NodeEquality
import ProgramTree.Proofs.Grafts
import ProgramTree.Proofs.MappedFields

namespace ProgramTree

section Shape

variable {α β : Type}

theorem Field.length_nodes_of_shape {first second : Field α}
    (hs : first.map (fun _ => ()) = second.map fun _ => ()) :
    first.nodes.length = second.nodes.length := by
  have hn := congrArg (·.nodes.length) hs
  simpa [nodes_map] using hn

theorem Field.map_eq_of_shape (f : α → β) {first second : Field α}
    (hs : first.map (fun _ => ()) = second.map fun _ => ())
    (hn : first.nodes.map f = second.nodes.map f) : first.map f = second.map f := by
  cases first with
  | one node => cases second <;> simp_all [map, nodes]
  | optional node =>
    cases second with
    | optional other => cases node <;> cases other <;> simp_all [map, nodes]
    | one | list => simp [map] at hs
  | list nodes => cases second <;> simp_all [map, Field.nodes]

/-- Fields of the same names and shapes are told apart by the nodes in them alone. -/
theorem map_fields_eq_of_shape (f : α → β) {first second : List (String × Field α)}
    (hs : first.map (fun (name, content) => (name, content.map fun _ => ())) =
      second.map fun (name, content) => (name, content.map fun _ => ()))
    (hn : (first.flatMap (·.2.nodes)).map f = (second.flatMap (·.2.nodes)).map f) :
    first.map (fun (name, content) => (name, content.map f)) =
      second.map fun (name, content) => (name, content.map f) := by
  induction first generalizing second with
  | nil =>
    cases second with
    | nil => rfl
    | cons => simp at hs
  | cons entry rest ih =>
    cases second with
    | nil => simp at hs
    | cons other others =>
      simp only [List.map_cons, List.cons.injEq, Prod.mk.injEq] at hs
      obtain ⟨⟨hname, hshape⟩, hrest⟩ := hs
      simp only [List.flatMap_cons, List.map_append] at hn
      have hlen : (entry.2.nodes.map f).length = (other.2.nodes.map f).length := by
        simp [Field.length_nodes_of_shape hshape]
      obtain ⟨hfirst, hothers⟩ := List.append_inj hn hlen
      have hcontent := Field.map_eq_of_shape f hshape hfirst
      simp only [List.map_cons, List.cons.injEq, Prod.mk.injEq]
      exact ⟨⟨hname, hcontent⟩, ih hrest hothers⟩

end Shape

namespace Node

mutual

/-- The same tree with every number zero. -/
def erase : Node → Node
  | token _ symbol text => token 0 symbol text
  | tree _ kind fields => tree 0 kind (eraseFields fields)

def eraseFields : List (String × Field Node) → List (String × Field Node)
  | [] => []
  | (name, content) :: rest => (name, eraseField content) :: eraseFields rest

def eraseField : Field Node → Field Node
  | .one node => .one (erase node)
  | .optional none => .optional none
  | .optional (some node) => .optional (some (erase node))
  | .list nodes => .list (eraseAll nodes)

def eraseAll : List Node → List Node
  | [] => []
  | node :: rest => erase node :: eraseAll rest

end

theorem eraseAll_eq (nodes : List Node) : eraseAll nodes = nodes.map erase := by
  induction nodes with
  | nil => rfl
  | cons node rest ih => rw [eraseAll, ih, List.map_cons]

theorem eraseField_eq (content : Field Node) : eraseField content = content.map erase := by
  cases content with
  | one => rfl
  | optional node => cases node <;> rfl
  | list nodes => rw [eraseField, eraseAll_eq, Field.map]

theorem eraseFields_eq (fields : List (String × Field Node)) :
    eraseFields fields = fields.map fun (name, content) => (name, content.map erase) := by
  induction fields with
  | nil => rfl
  | cons field rest ih => rw [eraseFields, ih, eraseField_eq, List.map_cons]

variable {root node new child : Node} {step : Step} {path : List Step}

theorem fields_erase (node : Node) :
    node.erase.fields = node.fields.map fun (name, content) => (name, content.map erase) := by
  cases node with
  | token => rfl
  | tree id kind fields => exact eraseFields_eq fields

@[simp]
theorem kind_erase (node : Node) : node.erase.kind = node.kind := by
  cases node <;> rfl

theorem label_erase (node : Node) : node.erase.label = node.label := by
  cases node with
  | token => rfl
  | tree id kind fields =>
    rw [erase, label, label, eraseFields_eq, List.map_map]
    congr 1
    refine List.map_congr_left ?_
    rintro ⟨name, content⟩ -
    cases content <;> simp [Field.map]

theorem children_erase (node : Node) : node.erase.children = node.children.map erase := by
  rw [children, children, fields_erase, List.flatMap_map, List.map_flatMap]
  exact List.flatMap_congr fun field _ => Field.nodes_map erase field.2

theorem childAt?_erase (node : Node) (step : Step) :
    node.erase.childAt? step = (node.childAt? step).map erase := by
  rw [childAt?_eq, childAt?_eq, field?, fields_erase, lookup_map_content, ← field?]
  cases node.field? step.field with
  | none => rfl
  | some content => exact Field.at?_map erase content

theorem nodeAt?_erase (h : root.nodeAt? path = some node) :
    root.erase.nodeAt? path = some node.erase := by
  induction path generalizing root with
  | nil =>
    cases h
    rfl
  | cons step path ih =>
    rw [nodeAt?_cons] at h
    obtain ⟨child, hc, hn⟩ := Option.bind_eq_some_iff.mp h
    rw [nodeAt?_cons, childAt?_erase, hc]
    exact ih hn

theorem erase_put (node : Node) (step : Step) (new : Node) (id : Nat) :
    (node.put step new id).erase = node.erase.put step new.erase 0 := by
  rw [put, put, erase, kind_erase, fields_erase, eraseFields_eq, Fields.put, Fields.put,
    List.map_map, List.map_map]
  congr 1
  refine List.map_congr_left ?_
  rintro ⟨name, content⟩ -
  by_cases hn : name = step.field <;> simp [hn, Field.map_put]

theorem erase_graft (root : Node) (path : List Step) (new : Node) (number : Nat → Nat) :
    (root.graft path new number).erase = root.erase.graft path new.erase fun _ => 0 := by
  induction path generalizing root with
  | nil => rfl
  | cons step path ih =>
    have hchild := childAt?_erase root step
    cases hc : root.childAt? step with
    | none =>
      rw [hc] at hchild
      simp only [graft, hc, hchild, Option.map_none]
    | some child =>
      rw [hc] at hchild
      rw [graft_cons hc, graft_cons hchild, erase_put, ih]

theorem length_children_of_label_eq {a b : Node} (h : a.label = b.label) :
    a.children.length = b.children.length := by
  cases a with
  | token =>
    cases b with
    | token => rfl
    | tree => simp [label] at h
  | tree id kind fields =>
    cases b with
    | token => simp [label] at h
    | tree id' kind' fields' =>
      simp only [label, Label.tree.injEq] at h
      have hn := congrArg (fun layout => (layout.flatMap (·.2.nodes)).length) h.2
      simpa [children, Node.fields, List.flatMap_map, Field.nodes_map] using hn

/-- A node without numbers is given by its label and its children without numbers. -/
theorem erase_eq_of_label_eq {a b : Node} (h : a.label = b.label)
    (hc : a.children.map erase = b.children.map erase) : a.erase = b.erase := by
  cases a with
  | token =>
    cases b with
    | token => simpa [label, erase] using h
    | tree => simp [label] at h
  | tree id kind fields =>
    cases b with
    | token => simp [label] at h
    | tree id' kind' fields' =>
      simp only [label, Label.tree.injEq] at h
      obtain ⟨rfl, hs⟩ := h
      rw [erase, erase, eraseFields_eq, eraseFields_eq, map_fields_eq_of_shape erase hs hc]

/-- Trees that differ in numbers only are equal. -/
theorem equal_of_erase_eq {a b : Node} (h : a.erase = b.erase) : a.equal b = true := by
  induction a using induction_children generalizing b with
  | step a ih =>
    refine (equal_iff a b).mpr (.inr ⟨?_, ?_⟩)
    · rw [← label_erase a, h, label_erase]
    · rintro ⟨c, d⟩ hp
      refine ih c (List.of_mem_zip hp).1 ?_
      have hchildren : a.children.map erase = b.children.map erase := by
        rw [← children_erase, h, children_erase]
      obtain ⟨index, hi, he⟩ := List.getElem_of_mem hp
      rw [List.getElem_zip, Prod.mk.injEq] at he
      have hindex := congrArg (·[index]?) hchildren
      simp only [List.length_zip, Nat.lt_min] at hi
      simpa [hi.1, hi.2, he.1, he.2] using hindex

/-- Two trees of the same content, whatever numbers they carry. -/
structure Alike (a b : Node) : Prop where
  equal : (a == b) = true
  content : a.erase = b.erase

theorem Alike.of_erase_eq {a b : Node} (h : a.erase = b.erase) : a.Alike b :=
  ⟨equal_of_erase_eq h, h⟩

end Node

end ProgramTree
