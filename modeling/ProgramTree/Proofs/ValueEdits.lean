import ProgramTree.Proofs.FieldRemovals
import ProgramTree.Proofs.Parts
import ProgramTree.Proofs.SpineEdits

namespace ProgramTree

/-- A place for the value of a definition is no half of a pair. -/
theorem Kind.expression_rule (kind : Kind) (h : kind.isDefinition = true) :
    ∀ rule ∈ kind.grammar, rule.name = "expression" →
      rule.shape = .optional rule.shape.permits none := by
  revert h
  cases kind <;> decide

namespace Node

/-- Nodes of one kind that agree in every field but one. -/
structure AgreeBut (field : String) (old new : Node) : Prop where
  kind : new.kind = old.kind
  field? : ∀ name, name ≠ field → new.field? name = old.field? name

variable {root parent child node old new target : Node} {step : Step} {name field : String}

namespace AgreeBut

theorem single? (h : old.AgreeBut field new) (hn : name ≠ field) :
    new.single? name = old.single? name := by
  rw [Node.single?, Node.single?, h.field? name hn]

theorem elements (h : old.AgreeBut field new) (hn : name ≠ field) :
    new.elements name = old.elements name := by
  rw [Node.elements, Node.elements, h.field? name hn]

theorem declaredNames (h : old.AgreeBut field new) (hn : "names" ≠ field) :
    new.declaredNames = old.declaredNames := by
  have hnames : new.namesNode? = old.namesNode? := by
    rw [namesNode?, namesNode?, h.kind, h.single? hn]
  rw [Node.declaredNames, Node.declaredNames, declaredNames?, declaredNames?, hnames]

theorem declaredInputs (h : old.AgreeBut field new) (hn : "inputs" ≠ field) :
    new.declaredInputs = old.declaredInputs := by
  rw [Node.declaredInputs, Node.declaredInputs, h.kind, h.elements hn]

theorem borrows (h : old.AgreeBut field new) (hn : "borrows" ≠ field) :
    new.borrows = old.borrows := by
  rw [Node.borrows, Node.borrows, h.kind, h.elements hn]

end AgreeBut

theorem agreeBut_put (node : Node) (step : Step) (new : Node) (id : Nat) :
    node.AgreeBut step.field (node.put step new id) := by
  refine ⟨rfl, fun name hn => ?_⟩
  have hlookup : (node.put step new id).field? name = _ := Fields.lookup_put ..
  rw [hlookup, ← Node.field?]
  simp [hn]

theorem agreeBut_assign (node : Node) (field : String) (content : Field Node) (id : Nat) :
    node.AgreeBut field (.tree id node.kind (Fields.assign field content node.fields)) :=
  ⟨rfl, fun _ hn => Fields.lookup_assign_of_ne hn⟩

theorem single?_of_childAt? (h : node.childAt? ⟨name, none⟩ = some child) :
    node.single? name = some child := by
  rw [childAt?_eq] at h
  obtain ⟨content, hf, hat⟩ := Option.bind_eq_some_iff.mp h
  have hfield : node.field? name = some content := hf
  rw [single?, hfield]
  cases content with
  | one => simpa [Field.at?] using hat
  | optional => simpa [Field.at?] using hat
  | list => cases hat

theorem elements_of_childAt? {index : Nat} (h : node.childAt? ⟨name, some index⟩ = some child) :
    (node.elements name)[index]? = some child := by
  rw [childAt?_eq] at h
  obtain ⟨content, hf, hat⟩ := Option.bind_eq_some_iff.mp h
  have hfield : node.field? name = some content := hf
  rw [elements, hfield]
  cases content with
  | one => cases hat
  | optional => cases hat
  | list => exact hat

theorem elements_put (node : Node) (name : String) (index : Nat) (new : Node) (id : Nat) :
    (node.put ⟨name, some index⟩ new id).elements name = (node.elements name).set index new := by
  have hlookup : (node.put ⟨name, some index⟩ new id).field? name = _ := Fields.lookup_put ..
  rw [elements, elements, hlookup, ← field?]
  cases node.field? name with
  | none => simp
  | some content => cases content <;> simp [Field.put]

/-- An edit of an unpaired optional field leaves the other fields as they are. -/
theorem WellFormed.agreeBut_of_replace (h : parent.WellFormed) {rule : FieldRule}
    {content : Field Node} (hh : parent.Holding step child rule content)
    (hf : parent.Foremost step child) (hs : old.same child = true)
    (hr : rule.shape = .optional rule.shape.permits none) {replacement : Option Node}
    {edited : Node} {next after : Nat}
    (he : parent.replace step.field (.child (some old) replacement) next = .ok edited after) :
    parent.AgreeBut step.field edited := by
  cases replacement with
  | none =>
    rw [h.replace_unpaired hh hs hr] at he
    cases he
    exact parent.agreeBut_assign step.field (.optional none) next
  | some new =>
    rw [h.replace_child hh hf hs new next] at he
    split at he
    next =>
      cases he
      exact parent.agreeBut_put step new next
    next => cases he

/-- An edit of the value itself leaves the other fields of the definition as they are. -/
theorem FirstPlace.agreeBut_expression {front : List Step} {replacement : Option Node}
    {edited : Node} {next after : Nat}
    (h : root.FirstPlace target front ⟨"expression", none⟩ parent child) (hw : root.WellFormed)
    (hd : parent.kind.isDefinition = true)
    (he : parent.replace "expression" (.child (some target) replacement) next =
      .ok edited after) : parent.AgreeBut "expression" edited := by
  have hparent := h.leads.wellFormed hw
  obtain ⟨rule, content, hh⟩ := hparent.exists_holding h.childAt
  have hshape := Kind.expression_rule parent.kind hd rule hh.rule_mem hh.name
  exact hparent.agreeBut_of_replace hh h.foremost h.same hshape he

/-- The way from a source to the value of the definition at an index of its top level. -/
def valuePath (index : Nat) : List Step :=
  [⟨"body", none⟩, ⟨"statements", some index⟩, ⟨"expression", none⟩]

/-- The path leads to the value of a definition at the top level, or into it. -/
structure InValue (source : Node) (index : Nat) (definition : Node) (path : List Step) : Prop where
  topLevel : source.topLevel[index]? = some definition
  isDefinition : definition.kind.isDefinition = true
  value : valuePath index <+: path

/-- The source in which a definition at the top level became one that agrees with it in all but
the value. -/
structure Rebuilt (source : Node) (index : Nat) (definition edited rebuilt : Node) : Prop where
  outside : source.AgreeBut "body" edited
  topLevel : edited.topLevel = source.topLevel.set index rebuilt
  inside : definition.AgreeBut "expression" rebuilt

variable {source body definition rebuilt : Node} {index : Nat}

/-- A statement of the body, reached step by step. -/
theorem childAt?_of_topLevel (ht : source.topLevel[index]? = some definition)
    (hb : source.childAt? ⟨"body", none⟩ = some body) :
    source.kind = .source ∧ body.kind = .block ∧
      (body.elements "statements")[index]? = some definition := by
  unfold topLevel at ht
  split at ht
  next hsource =>
    rw [single?_of_childAt? hb, Option.map_some, Option.getD_some, statements] at ht
    split at ht
    next hblock => exact ⟨hsource, hblock, ht⟩
    next => simp at ht
  next => simp at ht

theorem Leads.exists_value {rest : List Step} (h : source.Leads (valuePath index ++ rest) node)
    (ht : source.topLevel[index]? = some definition) :
    ∃ body value, source.childAt? ⟨"body", none⟩ = some body ∧
      body.childAt? ⟨"statements", some index⟩ = some definition ∧
      definition.childAt? ⟨"expression", none⟩ = some value := by
  cases h with
  | @step _ body _ _ _ hb _ h =>
    cases h with
    | @step _ statement _ _ _ hs _ h =>
      cases h with
      | @step _ value _ _ _ hv _ _ =>
        obtain ⟨-, -, hget⟩ := childAt?_of_topLevel ht hb
        have hstatement : statement = definition :=
          Option.some.inj ((elements_of_childAt? hs).symm.trans hget)
        subst hstatement
        exact ⟨body, value, hb, hs, hv⟩

theorem rebuilt_put (ht : source.topLevel[index]? = some definition)
    (hb : source.childAt? ⟨"body", none⟩ = some body) (hd : definition.AgreeBut "expression" rebuilt)
    (inner outer : Nat) :
    source.Rebuilt index definition
      (source.put ⟨"body", none⟩ (body.put ⟨"statements", some index⟩ rebuilt inner) outer)
      rebuilt := by
  refine ⟨source.agreeBut_put ⟨"body", none⟩ _ outer, ?_, hd⟩
  obtain ⟨hsource, hblock, -⟩ := childAt?_of_topLevel ht hb
  have hput : (source.put ⟨"body", none⟩ (body.put ⟨"statements", some index⟩ rebuilt inner)
        outer).childAt? ⟨"body", none⟩ =
      some (body.put ⟨"statements", some index⟩ rebuilt inner) := childAt?_put_of_some hb
  simp [topLevel, hsource, single?_of_childAt? hput, single?_of_childAt? hb, statements, hblock,
    elements_put]

/-- An edit in the value of a definition at the top level rebuilds that definition, and keeps the
other statements, the names and the borrows of the source. -/
theorem exists_rebuilt {next drawn after : Nat} {nodes : List Node} {path : List Step}
    {replacement : Option Node} {edited : Node} (history : History next nodes)
    (hr : source ∈ nodes) (hw : source.WellFormed) (hp : pathTo? target source = some path)
    (hi : source.InValue index definition path)
    (he : source.replaceWithin target replacement drawn = .ok edited after) :
    ∃ rebuilt, source.Rebuilt index definition edited rebuilt := by
  obtain ⟨rest, rfl⟩ := hi.value
  obtain ⟨node, hleads, -⟩ := hw.exists_leads history hr hp
  obtain ⟨body, value, hb, hs, hv⟩ := hleads.exists_value hi.topLevel
  -- The value itself is a child of the definition. Any other target stands further below.
  rcases List.eq_nil_or_concat' rest with rfl | ⟨front, step, rfl⟩
  · have hpath : pathTo? target source =
        some ([⟨"body", none⟩, ⟨"statements", some index⟩] ++ [⟨"expression", none⟩]) := hp
    obtain ⟨parent, child, hfirst⟩ := hw.exists_firstPlace history hr hpath
    obtain ⟨trimmed, middle, hreplace, rfl⟩ := hfirst.exists_edited hw he
    have hparent : parent = definition := by
      have hnode := hfirst.leads.nodeAt?_eq
      rw [nodeAt?_cons, hb, Option.bind_some, nodeAt?_cons, hs] at hnode
      exact (Option.some.inj hnode).symm
    subst hparent
    have hagree := hfirst.agreeBut_expression hw hi.isDefinition hreplace
    rw [graft_cons hb, graft_cons hs, graft_nil]
    exact ⟨trimmed, rebuilt_put hi.topLevel hb hagree _ _⟩
  · rw [← List.append_assoc] at hp
    obtain ⟨parent, child, hfirst⟩ := hw.exists_firstPlace history hr hp
    obtain ⟨trimmed, middle, -, rfl⟩ := hfirst.exists_edited hw he
    have hagree := definition.agreeBut_put ⟨"expression", none⟩
      (value.graft front trimmed (middle + ·)) (middle + front.length)
    rw [valuePath, List.cons_append, List.cons_append, List.cons_append, List.nil_append,
      graft_cons hb, graft_cons hs, graft_cons hv]
    exact ⟨_, rebuilt_put hi.topLevel hb hagree _ _⟩

end Node

end ProgramTree
