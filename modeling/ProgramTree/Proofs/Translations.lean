import ProgramTree.Proofs.CallResolution
import ProgramTree.Proofs.Parts
import ProgramTree.Proofs.TranslatedPrograms

namespace ProgramTree

/-- A change of nodes that carries over what the analysis reads of them, and changes names as a map
of names does. Documentation is not read, and may get lost. -/
structure Translation (name : String → String) (f : Node → Node) : Prop where
  injective : Function.Injective name
  kind : ∀ node, (f node).kind = node.kind
  single? : ∀ node field, field ≠ "docs" → (f node).single? field = (node.single? field).map f
  elements : ∀ node field, field ≠ "docs" → (f node).elements field = (node.elements field).map f
  text? : ∀ node, node.isNaming = true → (f node).text? = node.text?.map name
  children : ∀ node, node.WellFormed → ∃ kept : Node → Bool,
    (∀ child ∈ node.children, kept child = false → child.kind = .docs) ∧
      (f node).children = (node.children.filter kept).map f

def Binding.translate (f : Node → Node) : Binding → Binding
  | definition node => definition (f node)
  | value => value

namespace Translation

variable {name : String → String} {f : Node → Node} {node : Node} {ancestors : List Node}

section Names

variable (ht : Translation name f)

include ht

/-- The text of a place for a name changes with the names. -/
theorem text_single? (h : node.WellFormed) {field : String} {symbol : Symbol}
    (hr : FieldRule.one field [.symbol symbol] ∈ node.kind.grammar) (hs : symbol.isNaming = true)
    (hd : field ≠ "docs") :
    ((f node).single? field).bind Node.text? =
      ((node.single? field).bind Node.text?).map name := by
  obtain ⟨token, htoken, _, ha⟩ := h.exists_single? hr
  rw [ht.single? node field hd, htoken, Option.map_some, Option.bind_some, Option.bind_some,
    ht.text? token (Node.isNaming_of_admits hs ha)]

theorem nameTexts (h : node.WellFormed) (hk : node.kind = .names) :
    (f node).nameTexts = node.nameTexts.map name := by
  rw [Node.nameTexts, Node.nameTexts, ht.elements node "names" (by decide), List.filterMap_map,
    List.map_filterMap]
  exact List.filterMap_congr fun token hm => ht.text? token (h.isNaming_of_mem_names hk hm)

theorem namesNode? (node : Node) : (f node).namesNode? = node.namesNode?.map f := by
  unfold Node.namesNode?
  rw [ht.kind]
  split <;> first | exact ht.single? node "names" (by decide) | rfl

theorem declaredNames? (h : node.WellFormed) :
    (f node).declaredNames? = node.declaredNames?.map (List.map name) := by
  rw [Node.declaredNames?, Node.declaredNames?, ht.namesNode?]
  cases hn : node.namesNode? with
  | none => rfl
  | some names =>
    by_cases hk : names.kind = .names
    · simp [Option.filter_some, ht.kind, hk, ht.nameTexts (h.of_namesNode? hn) hk]
    · simp [Option.filter_some, ht.kind, hk]

theorem declaredNames (h : node.WellFormed) :
    (f node).declaredNames = node.declaredNames.map name := by
  rw [Node.declaredNames, Node.declaredNames, ht.declaredNames? h]
  cases node.declaredNames? <;> rfl

theorem renamed (h : node.WellFormed) : node.Renamed name (f node) :=
  ⟨ht.kind node, ht.declaredNames h⟩

theorem primaryName? (h : node.WellFormed) : (f node).primaryName? = node.primaryName?.map name :=
  (ht.renamed h).primaryName?

theorem declares (h : node.WellFormed) (text : String) :
    (f node).declares (name text) = node.declares text :=
  (ht.renamed h).declares ht.injective text

theorem borrowedSource? (h : node.WellFormed) :
    (f node).borrowedSource? = node.borrowedSource?.map name := by
  rw [Node.borrowedSource?, Node.borrowedSource?, ht.kind]
  split
  next hk =>
    have hr : FieldRule.one "source" [.symbol .name] ∈ node.kind.grammar := by
      rw [hk]
      decide
    exact ht.text_single? h hr rfl (by decide)
  next => rfl

theorem inputName? (h : node.WellFormed) : (f node).inputName? = node.inputName?.map name := by
  rw [Node.inputName?, Node.inputName?, ht.kind]
  split
  next hk =>
    have hr : FieldRule.one "name" [.symbol .name] ∈ node.kind.grammar := by
      rw [hk]
      decide
    exact ht.text_single? h hr rfl (by decide)
  next => rfl

end Names

section Parts

variable (ht : Translation name f)

include ht

theorem declaredInputs (node : Node) : (f node).declaredInputs = node.declaredInputs.map f := by
  rw [Node.declaredInputs, Node.declaredInputs, ht.kind, ht.elements node "inputs" (by decide)]
  split <;> rfl

theorem statements (node : Node) : (f node).statements = node.statements.map f := by
  rw [Node.statements, Node.statements, ht.kind, ht.elements node "statements" (by decide)]
  split <;> rfl

theorem borrows (node : Node) : (f node).borrows = node.borrows.map f := by
  rw [Node.borrows, Node.borrows, ht.kind, ht.elements node "borrows" (by decide)]
  split <;> rfl

/-- The statements of the block in a field. -/
theorem blockStatements (node : Node) {field : String} (hd : field ≠ "docs") :
    (((f node).single? field).map Node.statements).getD [] =
      (((node.single? field).map Node.statements).getD []).map f := by
  rw [ht.single? node field hd]
  cases node.single? field with
  | none => rfl
  | some block => exact ht.statements block

theorem topLevel (node : Node) : (f node).topLevel = node.topLevel.map f := by
  rw [Node.topLevel, Node.topLevel, ht.kind, ht.blockStatements node (by decide)]
  split <;> rfl

theorem isAbstractFunction (node : Node) : (f node).isAbstractFunction = node.isAbstractFunction := by
  rw [Node.isAbstractFunction, Node.isAbstractFunction, ht.kind,
    ht.single? node "expression" (by decide), Option.isNone_map]

theorem isRequired (node : Node) : (f node).isRequired = node.isRequired := by
  rw [Node.isRequired, Node.isRequired, ht.kind, ht.single? node "value" (by decide),
    Option.isNone_map]

theorem abstractFunctions (node : Node) :
    (f node).abstractFunctions = node.abstractFunctions.map f := by
  have hf : Node.isAbstractFunction ∘ f = Node.isAbstractFunction := funext ht.isAbstractFunction
  rw [Node.abstractFunctions, Node.abstractFunctions, ht.kind, ht.blockStatements node (by decide),
    List.filter_map, hf]
  split <;> rfl

theorem isInterface (node : Node) : (f node).isInterface = node.isInterface := by
  rw [Node.isInterface, Node.isInterface, ht.abstractFunctions, List.isEmpty_map]

theorem binding? (h : node.WellFormed) (text : String) :
    (f node).binding? (name text) = (node.binding? text).map (Binding.translate f) := by
  have hinputs : (node.declaredInputs.map f).find? (·.declares (name text)) =
      (node.declaredInputs.find? (·.declares text)).map f :=
    find?_map_of_agree fun input hi => ht.declares (h.of_mem_declaredInputs hi) text
  have hstatements : (node.statements.map f).find? (fun statement =>
        (statement.kind.isDefinition || statement.kind == .bind) &&
          statement.declares (name text)) =
      (node.statements.find? fun statement =>
        (statement.kind.isDefinition || statement.kind == .bind) &&
          statement.declares text).map f := by
    refine find?_map_of_agree fun statement hs => ?_
    rw [ht.kind, ht.declares (h.of_mem_statements hs)]
  rw [Node.binding?, Node.binding?, ht.kind, ht.declaredInputs, ht.statements, hinputs,
    hstatements, apply_ite (Option.map (Binding.translate f)), Option.map_map, Option.map_map,
    Option.map_map, Option.map_map]
  congr 2
  funext statement
  simp only [Function.comp_def, ht.kind]
  cases statement.kind.isDefinition <;> rfl

theorem lookup_around (ha : ∀ ancestor ∈ ancestors, ancestor.WellFormed) (text : String) :
    (Scope.around (ancestors.map f)).lookup (name text) =
      ((Scope.around ancestors).lookup text).map (Binding.translate f) := by
  rw [Scope.lookup_around, Scope.lookup_around, ← List.map_reverse]
  refine findSome?_map_of_agree fun ancestor hm => ?_
  exact ht.binding? (ha ancestor (List.mem_reverse.mp hm)) text

end Parts

end Translation

/-- What a block binds a name to is one of its statements, or a value. -/
theorem Node.WellFormed.of_binding? {node : Node} (h : node.WellFormed) {text : String}
    {definition : Node} (hb : node.binding? text = some (.definition definition)) :
    definition.WellFormed := by
  unfold binding? at hb
  split at hb
  next =>
    obtain ⟨_, _, hv⟩ := Option.map_eq_some_iff.mp hb
    cases hv
  next =>
    obtain ⟨statement, hf, hv⟩ := Option.map_eq_some_iff.mp hb
    split at hv
    next =>
      cases hv
      exact h.of_mem_statements (List.mem_of_find?_eq_some hf)
    next => cases hv

end ProgramTree
