import ProgramTree.Declarations
import ProgramTree.Proofs.BorrowPlaces

namespace ProgramTree

/-- The classes of the tokens whose texts are names. -/
def Symbol.isNaming : Symbol → Bool
  | name | operator => true
  | _ => false

/-- Every definition has names, and parameters. -/
theorem Kind.grammar_of_isDefinition {kind : Kind} (h : kind.isDefinition = true) :
    FieldRule.one "names" [.kind .names] ∈ kind.grammar ∧
      FieldRule.list "inputs" [.kind .bind] ∈ kind.grammar := by
  revert h
  cases kind <;> decide

namespace Node

variable {node child : Node} {name : String}

/-- Tokens whose texts are names. -/
def isNaming (node : Node) : Bool :=
  node.symbol?.any Symbol.isNaming

theorem isNaming_of_admits {symbol : Symbol} (hs : symbol.isNaming = true)
    (h : (Permit.symbol symbol).admits node = true) : node.isNaming = true := by
  have hn : node.symbol? = some symbol := beq_iff_eq.mp h
  simp [isNaming, hn, hs]

theorem exists_text?_of_isNaming (h : node.isNaming = true) : ∃ text, node.text? = some text := by
  cases node with
  | token id symbol text => exact ⟨text, rfl⟩
  | tree => cases h

theorem nodes_sublist_children {content : Field Node} (h : node.field? name = some content) :
    content.nodes.Sublist node.children := by
  obtain ⟨before, after, hf, -⟩ := List.lookup_eq_some_iff.mp h
  rw [children, hf, List.flatMap_append, List.flatMap_cons]
  exact (List.sublist_append_left _ _).trans (List.sublist_append_right _ _)

theorem elements_sublist_children (node : Node) (name : String) :
    (node.elements name).Sublist node.children := by
  unfold elements
  split
  next nodes hf => exact nodes_sublist_children hf
  next => exact List.nil_sublist _

theorem single?_sublist_children (node : Node) (name : String) :
    (node.single? name).toList.Sublist node.children := by
  unfold single?
  split
  next hf => exact nodes_sublist_children hf
  next hf => exact nodes_sublist_children hf
  next => exact List.nil_sublist _

theorem mem_children_of_single? (h : node.single? name = some child) : child ∈ node.children :=
  (node.single?_sublist_children name).subset (Option.mem_toList.mpr h)

theorem mem_children_of_mem_statements (h : child ∈ node.statements) : child ∈ node.children := by
  unfold statements at h
  split at h
  next => exact mem_children_of_elements h
  next => simp at h

theorem exists_body_of_mem_topLevel (h : child ∈ node.topLevel) :
    ∃ body ∈ node.children, child ∈ body.statements := by
  unfold topLevel at h
  split at h
  next =>
    cases hb : node.single? "body" with
    | none => simp [hb] at h
    | some body => exact ⟨body, mem_children_of_single? hb, by simpa [hb] using h⟩
  next => simp at h

theorem declaredInputs_sublist_children (node : Node) :
    node.declaredInputs.Sublist node.children := by
  unfold declaredInputs
  split
  next => exact elements_sublist_children node "inputs"
  next => exact List.nil_sublist _

theorem borrows_sublist_children (node : Node) : node.borrows.Sublist node.children := by
  unfold borrows
  split
  next => exact elements_sublist_children node "borrows"
  next => exact List.nil_sublist _

theorem mem_children_of_namesNode? (h : node.namesNode? = some child) :
    child ∈ node.children := by
  unfold namesNode? at h
  split at h <;> first | exact mem_children_of_single? h | cases h

namespace WellFormed

theorem field?_eq_list (h : node.WellFormed) {nonEmpty : Bool} {permits : List Permit}
    (hr : ⟨name, .list nonEmpty permits⟩ ∈ node.kind.grammar) :
    node.field? name = some (.list (node.elements name)) := by
  obtain ⟨content, hf, ha⟩ := h.fits.allowed _ hr
  have hfield : node.field? name = some content := hf
  cases content with
  | list nodes => simp [elements, hfield]
  | one | optional => cases ha.arity

theorem of_mem_elements (h : node.WellFormed) (hc : child ∈ node.elements name) :
    child.WellFormed :=
  h.of_mem_children (mem_children_of_elements hc)

theorem of_namesNode? (h : node.WellFormed) (hn : node.namesNode? = some child) :
    child.WellFormed :=
  h.of_mem_children (mem_children_of_namesNode? hn)

theorem of_mem_declaredInputs (h : node.WellFormed) (hc : child ∈ node.declaredInputs) :
    child.WellFormed :=
  h.of_mem_children (node.declaredInputs_sublist_children.subset hc)

theorem kind_of_mem_declaredInputs (h : node.WellFormed) (hc : child ∈ node.declaredInputs) :
    child.kind = .bind := by
  unfold declaredInputs at hc
  split at hc
  next hd =>
    obtain ⟨permit, hp, ha⟩ :=
      h.admitted_of_mem_elements (Kind.grammar_of_isDefinition hd).2 hc
    cases List.mem_singleton.mp hp
    exact beq_iff_eq.mp ha
  next => simp at hc

theorem of_mem_statements (h : node.WellFormed) (hc : child ∈ node.statements) :
    child.WellFormed :=
  h.of_mem_children (mem_children_of_mem_statements hc)

theorem of_mem_borrows (h : node.WellFormed) (hc : child ∈ node.borrows) : child.WellFormed :=
  h.of_mem_children (node.borrows_sublist_children.subset hc)

theorem of_mem_topLevel (h : node.WellFormed) (hc : child ∈ node.topLevel) :
    child.WellFormed := by
  obtain ⟨body, hb, hs⟩ := exists_body_of_mem_topLevel hc
  exact (h.of_mem_children hb).of_mem_statements hs

theorem isNaming_of_mem_names (h : node.WellFormed) (hk : node.kind = .names)
    (hc : child ∈ node.elements "names") : child.isNaming = true := by
  have hr : FieldRule.nonEmptyList "names" [.symbol .name, .symbol .operator] ∈
      node.kind.grammar := by
    rw [hk]
    decide
  obtain ⟨permit, hp, ha⟩ := h.admitted_of_mem_elements hr hc
  rcases List.mem_pair.mp hp with rfl | rfl
  · exact isNaming_of_admits rfl ha
  · exact isNaming_of_admits rfl ha

/-- A list of names is never empty. -/
theorem exists_nameText (h : node.WellFormed) (hk : node.kind = .names) :
    ∃ text rest, node.nameTexts = text :: rest := by
  have hr : FieldRule.nonEmptyList "names" [.symbol .name, .symbol .operator] ∈
      node.kind.grammar := by
    rw [hk]
    decide
  obtain ⟨content, hf, ha⟩ := h.fits.allowed _ hr
  cases Option.some.inj (hf.symm.trans (h.field?_eq_list hr))
  cases hlist : node.elements "names" with
  | nil => exact (ha.nonEmpty rfl hlist).elim
  | cons token rest =>
    have hnaming := h.isNaming_of_mem_names hk (hlist ▸ List.mem_cons_self)
    obtain ⟨text, ht⟩ := exists_text?_of_isNaming hnaming
    exact ⟨text, rest.filterMap text?, by rw [nameTexts, hlist, List.filterMap_cons_some ht]⟩

theorem exists_primaryName? (h : node.WellFormed) (hk : node.kind = .source) :
    ∃ name, node.primaryName? = some name := by
  obtain ⟨names, hs, hm, ha⟩ := h.exists_single?_of_kind hk "names" (.kind .names) (by decide)
  have hnames : names.kind = .names := beq_iff_eq.mp ha
  obtain ⟨text, rest, htexts⟩ := (h.of_mem_children hm).exists_nameText hnames
  have hdeclared : node.declaredNames = text :: rest := by
    simp [declaredNames, declaredNames?, namesNode?, hk, hs, Option.filter_some, hnames, htexts]
  exact ⟨text, by rw [primaryName?, hdeclared, List.head?_cons]⟩

end WellFormed

end Node

end ProgramTree
