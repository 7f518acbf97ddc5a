import ProgramTree.Symbol
import ProgramTree.Kind
import ProgramTree.Field

namespace ProgramTree

/-- The sum of a measure over a list. -/
def total {α : Type} (measure : α → Nat) : List α → Nat
  | [] => 0
  | item :: rest => measure item + total measure rest

section Total

variable {α β : Type} (measure : α → Nat)

@[simp]
theorem total_nil : total measure [] = 0 := rfl

@[simp]
theorem total_cons (item : α) (rest : List α) :
    total measure (item :: rest) = measure item + total measure rest := rfl

@[simp]
theorem total_append (first second : List α) :
    total measure (first ++ second) = total measure first + total measure second := by
  induction first with
  | nil => simp
  | cons item rest ih => simp [ih, Nat.add_assoc]

theorem total_map (f : β → α) (items : List β) :
    total measure (items.map f) = total (fun item => measure (f item)) items := by
  induction items with
  | nil => rfl
  | cons item rest ih => simp [ih]

theorem total_attach (items : List α) :
    total (fun item : { item // item ∈ items } => measure item.1) items.attach =
      total measure items := by
  rw [← total_map measure Subtype.val, List.attach_map_subtype_val]

end Total

/-- An immutable piece of a program. The number `id` tells nodes of equal content apart: every
construction gives its node a number of its own, and a shared node keeps the one it has. -/
inductive Node where
  | token (id : Nat) (symbol : Symbol) (text : String)
  | tree (id : Nat) (kind : Kind) (fields : List (String × Field Node))
deriving Inhabited

/-- The named places of a node, or a proposal for them. -/
abbrev Fields := List (String × Field Node)

def Fields.nodes (fields : Fields) : List Node :=
  fields.flatMap (·.2.nodes)

/-- The fields with another content under a name that they have. -/
def Fields.assign (name : String) (content : Field Node) (fields : Fields) : Fields :=
  fields.map fun (other, field) => (other, if other == name then content else field)

namespace Node

def id : Node → Nat
  | token id .. => id
  | tree id .. => id

def kind : Node → Kind
  | token .. => .token
  | tree _ kind _ => kind

def fields : Node → Fields
  | token .. => []
  | tree _ _ fields => fields

def field? (node : Node) (name : String) : Option (Field Node) :=
  node.fields.lookup name

def single? (node : Node) (name : String) : Option Node :=
  match node.field? name with
  | some (.one child) => some child
  | some (.optional child) => child
  | _ => none

def elements (node : Node) (name : String) : List Node :=
  match node.field? name with
  | some (.list nodes) => nodes
  | _ => []

def children (node : Node) : List Node :=
  node.fields.flatMap (·.2.nodes)

def symbol? : Node → Option Symbol
  | token _ symbol _ => some symbol
  | tree .. => none

def text? : Node → Option String
  | token _ _ text => some text
  | tree .. => none

def isSymbol (node : Node) (symbol : Symbol) : Bool :=
  node.symbol? == some symbol

def purpose (node : Node) : Purpose :=
  node.kind.purpose

/-- The two handles denote one node. -/
def same (a b : Node) : Bool :=
  a.id == b.id

theorem sizeOf_lt_of_mem_nodes {field : Field Node} {child : Node} (h : child ∈ field.nodes) :
    sizeOf child < sizeOf field := by
  cases field with
  | one node =>
    cases List.mem_singleton.mp h
    simp
  | optional node =>
    cases node with
    | none => simp [Field.nodes] at h
    | some node =>
      cases List.mem_singleton.mp h
      simp
      omega
  | list nodes =>
    have hl : sizeOf child < sizeOf nodes := List.sizeOf_lt_of_mem h
    simp
    omega

theorem sizeOf_lt_of_mem_children {node child : Node} (h : child ∈ node.children) :
    sizeOf child < sizeOf node := by
  obtain ⟨⟨name, field⟩, hf, hc⟩ := List.mem_flatMap.mp h
  cases node with
  | token => simp [fields] at hf
  | tree id kind fields =>
    have hl : sizeOf (name, field) < sizeOf fields := List.sizeOf_lt_of_mem hf
    have hn : sizeOf child < sizeOf field := sizeOf_lt_of_mem_nodes hc
    simp at hl ⊢
    omega

theorem mem_children_of_field? {node child : Node} {name : String} {field : Field Node}
    (hf : node.field? name = some field) (hc : child ∈ field.nodes) : child ∈ node.children := by
  obtain ⟨_, _, heq, _⟩ := List.lookup_eq_some_iff.mp hf
  exact List.mem_flatMap.mpr ⟨(name, field), by simp [heq], hc⟩

theorem mem_children_of_elements {node child : Node} {name : String}
    (h : child ∈ node.elements name) : child ∈ node.children := by
  unfold elements at h
  split at h
  next nodes hf => exact mem_children_of_field? hf h
  next => simp at h

/-- To show a property of every node, show it of a node whose children have it. -/
theorem induction_children {motive : Node → Prop}
    (step : ∀ node, (∀ child ∈ node.children, motive child) → motive node) (node : Node) :
    motive node :=
  step node fun child _ => induction_children step child
termination_by sizeOf node
decreasing_by exact sizeOf_lt_of_mem_children ‹_›

def size (node : Node) : Nat :=
  1 + total (fun ⟨child, _⟩ => size child) node.children.attach
termination_by sizeOf node
decreasing_by exact sizeOf_lt_of_mem_children ‹_›

theorem size_eq (node : Node) : node.size = 1 + total size node.children := by
  rw [size, total_attach]

end Node

end ProgramTree
