import ProgramTree.Proofs.FieldRemovals
import ProgramTree.Proofs.FirstPlaces

namespace ProgramTree

section Total

variable {α : Type} (measure : α → Nat) {items : List α} {index : Nat} {old : α}

theorem total_set (h : items[index]? = some old) (new : α) :
    total measure (items.set index new) + measure old = total measure items + measure new := by
  induction items generalizing index with
  | nil => simp at h
  | cons item rest ih =>
    cases index with
    | zero =>
      have he : item = old := by simpa using h
      simp [he]
      omega
    | succ index =>
      have hr := ih (by simpa using h)
      simp
      omega

theorem total_eraseIdx (h : items[index]? = some old) :
    total measure (items.eraseIdx index) + measure old = total measure items := by
  induction items generalizing index with
  | nil => simp at h
  | cons item rest ih =>
    cases index with
    | zero =>
      have he : item = old := by simpa using h
      simp [he, Nat.add_comm]
    | succ index =>
      have hr := ih (by simpa using h)
      simp
      omega

theorem le_total_of_mem {item : α} (h : item ∈ items) : measure item ≤ total measure items := by
  obtain ⟨index, hi⟩ := List.mem_iff_getElem?.mp h
  have ht := total_eraseIdx measure hi
  omega

end Total

variable (measure : Node → Nat)

theorem Field.total_put {content : Field Node} {index : Option Nat} {old : Node}
    (h : content.at? index = some old) (new : Node) :
    total measure (content.put index new).nodes + measure old =
      total measure content.nodes + measure new := by
  cases content with
  | one node =>
    obtain ⟨rfl, rfl⟩ := at?_one.mp h
    simp [put, nodes, Nat.add_comm]
  | optional node =>
    obtain ⟨rfl, rfl⟩ := at?_optional.mp h
    simp [put, nodes, Nat.add_comm]
  | list held =>
    obtain ⟨position, rfl, hget⟩ := at?_list.mp h
    exact total_set measure hget new

theorem Fields.total_assign {fields : Fields} {name : String} {old : Field Node}
    (hn : (fields.map (·.1)).Nodup) (h : fields.lookup name = some old) (content : Field Node) :
    total measure (assign name content fields).nodes + total measure old.nodes =
      total measure fields.nodes + total measure content.nodes := by
  induction fields with
  | nil => simp at h
  | cons field rest ih =>
    obtain ⟨key, held⟩ := field
    simp only [List.map_cons, List.nodup_cons] at hn
    by_cases hk : name = key
    · subst hk
      have he : held = old := by simpa using h
      have hrest : assign name content rest = rest := assign_eq_self hn.1
      have hcons : assign name content ((name, held) :: rest) = (name, content) :: rest := by
        simpa [assign] using hrest
      rw [hcons]
      simp [nodes, he]
      omega
    · have hr : rest.lookup name = some old := by
        simpa [List.lookup_cons, beq_eq_false_iff_ne.mpr hk] using h
      have hcons : assign name content ((key, held) :: rest) =
          (key, held) :: assign name content rest := by simp [assign, Ne.symm hk]
      have hrest := ih hn.2 hr
      rw [hcons]
      simp only [nodes, List.flatMap_cons, total_append] at hrest ⊢
      omega

/-- Emptying a field adds nothing to a measure of the nodes. -/
theorem Fields.total_assign_none_le (name : String) (fields : Fields) :
    total measure (assign name (.optional none) fields).nodes ≤ total measure fields.nodes := by
  induction fields with
  | nil => rfl
  | cons field rest ih =>
    obtain ⟨key, held⟩ := field
    have hcons : assign name (.optional none) ((key, held) :: rest) =
        (key, if key == name then .optional none else held) ::
          assign name (.optional none) rest := rfl
    rw [hcons]
    simp only [nodes, List.flatMap_cons, total_append] at ih ⊢
    split
    next =>
      have hnone : total measure (Field.optional (none : Option Node)).nodes = 0 := rfl
      omega
    next => omega

namespace Node

variable {node child new : Node} {step : Step}

theorem WellFormed.total_put (h : node.WellFormed) (hc : node.childAt? step = some child)
    (new : Node) (id : Nat) :
    total measure (node.put step new id).children + measure child =
      total measure node.children + measure new := by
  rw [childAt?_eq] at hc
  obtain ⟨content, hf, hat⟩ := Option.bind_eq_some_iff.mp hc
  have hfield := Field.total_put measure hat new
  have hassign := Fields.total_assign measure h.names_nodup hf
    (content.put step.index new)
  rw [Fields.assign_put h.names_nodup hf] at hassign
  have hold : total measure node.children = total measure node.fields.nodes := rfl
  have hnew : total measure (node.put step new id).children =
      total measure (node.fields.put step new).nodes := rfl
  omega

theorem children_tree (id : Nat) (kind : Kind) (fields : Fields) :
    (tree id kind fields).children = fields.nodes := rfl

/-- A removal takes its child out of a measure and adds nothing else, if the tokens that may stand
in do not count. -/
theorem Removed.total_le {next after : Nat} {trimmed : Node}
    (h : node.Removed step next trimmed after) (hw : node.WellFormed)
    (hc : node.childAt? step = some child)
    (hm : ∀ symbol text, measure (.token next symbol text) = 0) :
    total measure trimmed.children + measure child ≤ total measure node.children := by
  rw [childAt?_eq] at hc
  obtain ⟨content, hf, hat⟩ := Option.bind_eq_some_iff.mp hc
  have hold : total measure node.children = total measure node.fields.nodes := rfl
  have hchild : measure child ≤ total measure content.nodes :=
    le_total_of_mem measure (Field.mem_nodes_of_at? hat)
  have hassign := Fields.total_assign measure hw.names_nodup hf
  have hnone : total measure (Field.optional (none : Option Node)).nodes = 0 := rfl
  cases h with
  | @element elements index hlist hi =>
    have he : content = .list elements := Option.some.inj (hf.symm.trans hlist)
    subst he
    rw [hi] at hat
    have hlost := total_eraseIdx measure hat
    have hnew := hassign (.list (elements.eraseIdx index))
    rw [children_tree, hold]
    simp only [Field.nodes] at hnew
    omega
  | unpaired =>
    have hnew := hassign (.optional none)
    rw [children_tree, hold]
    omega
  | @bound sibling =>
    have hnew := hassign (.optional none)
    have hless := Fields.total_assign_none_le measure sibling
      (Fields.assign step.field (.optional none) node.fields)
    rw [children_tree, hold]
    omega
  | @delimiter rule sibling text fallback present =>
    have hnew := hassign (.optional (some (.token next (fallback.symbolFor present) text)))
    have htoken : total measure
        (Field.optional (some (Node.token next (fallback.symbolFor present) text))).nodes = 0 :=
      hm (fallback.symbolFor present) text
    rw [children_tree, hold]
    omega

/-- The occurrences of what has a property: of the root itself, and of what is below its
children. -/
theorem countP_descendants (p : Node → Bool) (root : Node) :
    root.descendants.countP p =
      (if p root then 1 else 0) + total (fun child => child.descendants.countP p) root.children := by
  rw [descendants_eq, List.countP_cons, Nat.add_comm]
  congr 1
  induction root.children with
  | nil => rfl
  | cons child rest ih => simp [ih]

/-- A graft trades the occurrences of a node below what it replaced for those below what it
brings. -/
theorem Leads.countP_graft {root parent : Node} {front : List Step} (h : root.Leads front parent)
    (hw : root.WellFormed) {p : Node → Bool} (number : Nat → Nat)
    (hp : ∀ node depth, node.id = number depth → p node = false) (new : Node) :
    (root.graft front new number).descendants.countP p + parent.descendants.countP p ≤
      root.descendants.countP p + new.descendants.countP p := by
  induction h with
  | here => rw [graft_nil, Nat.add_comm]
  | @step root child parent step path hc _ _ ih =>
    have hinner := ih (hw.of_mem_children (mem_children_of_childAt? hc))
    have houter := hw.total_put (fun child => child.descendants.countP p) hc
      (child.graft path new number) (number path.length)
    have hfresh : p (root.put step (child.graft path new number) (number path.length)) = false :=
      hp _ _ (id_put ..)
    rw [graft_cons hc, countP_descendants p (root.put ..), countP_descendants p root, hfresh]
    simp only [Bool.false_eq_true, if_false]
    omega

end Node

end ProgramTree
