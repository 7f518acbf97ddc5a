import Mathlib.Data.List.Infix
import ProgramTree.Path

namespace ProgramTree

namespace Field

variable {α β : Type}

/-- The node at a place of a field: its index in a list, no index elsewhere. -/
def at? : Option Nat → Field α → Option α
  | none, one node => some node
  | none, optional node => node
  | some index, list nodes => nodes[index]?
  | _, _ => none

/-- The field with another node at one of its places. -/
def put (index : Option Nat) (new : α) : Field α → Field α
  | one node => one (if index = none then new else node)
  | optional node => optional (node.map fun old => if index = none then new else old)
  | list nodes =>
    match index with
    | some index => list (nodes.set index new)
    | none => list nodes

variable {index other : Option Nat} {new second : α} {content : Field α}

theorem at?_one {node : α} : (one node).at? index = some new ↔ index = none ∧ node = new := by
  cases index <;> simp [at?]

theorem at?_optional {node : Option α} :
    (optional node).at? index = some new ↔ index = none ∧ node = some new := by
  cases index <;> simp [at?]

theorem at?_list {nodes : List α} :
    (list nodes).at? index = some new ↔ ∃ position, index = some position ∧
      nodes[position]? = some new := by
  cases index <;> simp [at?]

theorem at?_put_self : (content.put index new).at? index = (content.at? index).map fun _ => new := by
  cases content with
  | one => cases index <;> simp [put, at?]
  | optional node => cases index <;> simp [put, at?]
  | list nodes =>
    cases index with
    | none => rfl
    | some index =>
      simp only [put, at?, List.getElem?_set_self']
      rfl

theorem at?_put_of_ne (h : index ≠ other) : (content.put index new).at? other = content.at? other := by
  cases content with
  | one => cases index <;> cases other <;> simp_all [put, at?]
  | optional node => cases index <;> cases other <;> simp_all [put, at?]
  | list nodes =>
    cases index with
    | none => rfl
    | some index =>
      cases other with
      | none => rfl
      | some other =>
        have hne : index ≠ other := fun he => h (he ▸ rfl)
        simp [put, at?, List.getElem?_set_ne hne]

@[simp]
theorem put_put : (content.put index new).put index second = content.put index second := by
  cases content with
  | one => cases index <;> simp [put]
  | optional node => cases index <;> cases node <;> simp [put]
  | list nodes => cases index <;> simp [put]

theorem put_self (h : content.at? index = some new) : content.put index new = content := by
  cases content with
  | one node =>
    obtain ⟨rfl, rfl⟩ := at?_one.mp h
    rfl
  | optional node =>
    obtain ⟨rfl, rfl⟩ := at?_optional.mp h
    rfl
  | list nodes =>
    obtain ⟨position, rfl, hget⟩ := at?_list.mp h
    obtain ⟨hlt, rfl⟩ := List.getElem?_eq_some_iff.mp hget
    simp [put]

theorem put_comm (h : index ≠ other) :
    (content.put index new).put other second = (content.put other second).put index new := by
  cases content with
  | one => cases index <;> cases other <;> simp_all [put]
  | optional node => cases index <;> cases other <;> cases node <;> simp_all [put]
  | list nodes =>
    cases index with
    | none => cases other <;> simp [put]
    | some index =>
      cases other with
      | none => simp [put]
      | some other =>
        have hne : index ≠ other := fun he => h (he ▸ rfl)
        simp [put, List.set_comm _ _ hne]

theorem map_put (f : α → β) : (content.put index new).map f = (content.map f).put index (f new) := by
  cases content with
  | one => cases index <;> simp [put, map]
  | optional node => cases index <;> cases node <;> simp [put, map]
  | list nodes => cases index <;> simp [put, map]

theorem at?_map (f : α → β) (content : Field α) :
    (content.map f).at? index = (content.at? index).map f := by
  cases content <;> cases index <;> simp [map, at?]

theorem isPresent_put : (content.put index new).isPresent = content.isPresent := by
  cases content with
  | one => rfl
  | optional node => cases node <;> rfl
  | list held =>
    cases index with
    | none => rfl
    | some index => cases held <;> cases index <;> rfl

theorem nodes_put_subset : (content.put index new).nodes ⊆ new :: content.nodes := by
  cases content with
  | one => cases index <;> simp [put, nodes]
  | optional node => cases index <;> cases node <;> simp [put, nodes]
  | list nodes =>
    cases index with
    | none => exact List.subset_cons_self _ _
    | some index =>
      intro node hn
      rcases List.mem_or_eq_of_mem_set hn with h | rfl
      · exact List.mem_cons_of_mem _ h
      · exact List.mem_cons_self

theorem indexed_put :
    (content.put index new).indexed =
      content.indexed.map fun entry => if entry.1 = index then (entry.1, new) else entry := by
  cases content with
  | one => cases index <;> simp [put, indexed]
  | optional node => cases index <;> cases node <;> simp [put, indexed]
  | list nodes =>
    cases index with
    | none => simp [put, indexed]
    | some index =>
      refine List.ext_getElem (by simp [put, indexed]) fun position hl hr => ?_
      simp only [put, indexed, List.getElem_map, List.getElem_zipIdx, List.getElem_set,
        Option.some.injEq, Nat.zero_add]
      by_cases he : index = position
      · simp [he]
      · simp [he, Ne.symm he]

theorem at?_eq_some_iff : content.at? index = some new ↔ (index, new) ∈ content.indexed := by
  cases content with
  | one node => cases index <;> simp [at?, indexed, eq_comm]
  | optional node => cases index <;> cases node <;> simp [at?, indexed, eq_comm]
  | list nodes => cases index <;> simp [at?, indexed, List.mem_zipIdx_iff_getElem?]

theorem mem_nodes_of_at? (h : content.at? index = some new) : new ∈ content.nodes := by
  rw [← map_snd_indexed]
  exact List.mem_map.mpr ⟨_, at?_eq_some_iff.mp h, rfl⟩

end Field

/-- The fields with another node at one place. -/
def Fields.put (step : Step) (new : Node) (fields : Fields) : Fields :=
  fields.map fun (name, content) =>
    (name, if name = step.field then content.put step.index new else content)

theorem Fields.lookup_put (step : Step) (new : Node) (fields : Fields) (name : String) :
    (fields.put step new).lookup name = (fields.lookup name).map fun content =>
      if name = step.field then content.put step.index new else content := by
  induction fields with
  | nil => rfl
  | cons field rest ih =>
    obtain ⟨key, held⟩ := field
    by_cases hn : name = key
    · simp [put, hn]
    · have hb := beq_eq_false_iff_ne.mpr hn
      simpa [put, List.lookup_cons, hb] using ih

theorem Fields.put_put (step : Step) (first second : Node) (fields : Fields) :
    (fields.put step first).put step second = fields.put step second := by
  simp only [put, List.map_map, Function.comp_def]
  refine List.map_congr_left ?_
  rintro ⟨name, content⟩ -
  by_cases hn : name = step.field <;> simp [hn]

theorem Fields.put_comm {step other : Step} (h : step ≠ other) (first second : Node)
    (fields : Fields) :
    (fields.put step first).put other second = (fields.put other second).put step first := by
  simp only [put, List.map_map, Function.comp_def]
  refine List.map_congr_left ?_
  rintro ⟨name, content⟩ -
  by_cases hs : name = step.field
  · by_cases ho : name = other.field
    · have hi : step.index ≠ other.index := by
        intro hi
        cases step
        cases other
        simp_all
      simp only [if_pos hs, if_pos ho, Field.put_comm hi]
    · simp only [if_pos hs, if_neg ho]
  · simp only [if_neg hs]

namespace Node

variable {node new child : Node} {step other : Step} {id : Nat}

theorem childAt?_eq (node : Node) (step : Step) :
    node.childAt? step = (node.field? step.field).bind (·.at? step.index) := by
  unfold childAt?
  cases hf : node.field? step.field with
  | none => rfl
  | some content => cases content <;> cases hi : step.index <;> rfl

theorem mem_children_of_childAt? (h : node.childAt? step = some child) : child ∈ node.children := by
  rw [childAt?_eq] at h
  obtain ⟨content, hf, hat⟩ := Option.bind_eq_some_iff.mp h
  exact mem_children_of_field? hf (Field.mem_nodes_of_at? hat)

/-- The node made anew under a number, with another child at one of its places. -/
def put (node : Node) (step : Step) (new : Node) (id : Nat) : Node :=
  tree id node.kind (node.fields.put step new)

@[simp]
theorem kind_put : (node.put step new id).kind = node.kind := rfl

@[simp]
theorem id_put : (node.put step new id).id = id := rfl

@[simp]
theorem symbol?_put : (node.put step new id).symbol? = none := rfl

theorem childAt?_put_self :
    (node.put step new id).childAt? step = (node.childAt? step).map fun _ => new := by
  have hl : (node.put step new id).field? step.field = _ := Fields.lookup_put ..
  rw [childAt?_eq, childAt?_eq, hl, ← field?]
  cases node.field? step.field <;> simp [Field.at?_put_self]

theorem childAt?_put_of_some (h : node.childAt? step = some child) :
    (node.put step new id).childAt? step = some new := by
  rw [childAt?_put_self, h, Option.map_some]

theorem childAt?_put_of_ne (h : step ≠ other) :
    (node.put step new id).childAt? other = node.childAt? other := by
  have hl : (node.put step new id).field? other.field = _ := Fields.lookup_put ..
  rw [childAt?_eq, childAt?_eq, hl, ← field?]
  cases node.field? other.field with
  | none => rfl
  | some content =>
    by_cases hf : other.field = step.field
    · have hi : step.index ≠ other.index := by
        intro hi
        cases step
        cases other
        simp_all
      simp [hf, Field.at?_put_of_ne hi]
    · simp [hf]

theorem branches_put :
    (node.put step new id).branches =
      node.branches.map fun branch => if branch.1 = step then (step, new) else branch := by
  have hf : (node.put step new id).fields = node.fields.put step new := rfl
  rw [branches, branches, hf, Fields.put, List.flatMap_map, List.map_flatMap]
  refine List.flatMap_congr ?_
  rintro ⟨name, content⟩ -
  obtain ⟨field, index⟩ := step
  by_cases hn : name = field
  · simp only [hn, if_true, Field.indexed_put, List.map_map]
    refine List.map_congr_left ?_
    rintro ⟨other, held⟩ -
    by_cases hi : other = index <;> simp [hi]
  · simp [hn]

theorem children_put_subset : (node.put step new id).children ⊆ new :: node.children := by
  rw [← map_snd_branches, branches_put, ← map_snd_branches, List.map_map]
  intro held hheld
  obtain ⟨branch, hb, rfl⟩ := List.mem_map.mp hheld
  by_cases hs : branch.1 = step
  · simp [hs]
  · have hm : branch.2 ∈ node.branches.map (·.2) := List.mem_map.mpr ⟨branch, hb, rfl⟩
    simp only [Function.comp_apply, if_neg hs]
    exact List.mem_cons_of_mem new hm

theorem put_put (first second : Node) (id number : Nat) :
    (node.put step first id).put step second number = node.put step second number :=
  congrArg (tree number node.kind) (Fields.put_put ..)

theorem put_comm (h : step ≠ other) (first second : Node) (id : Nat) :
    (node.put step first id).put other second id = (node.put other second id).put step first id :=
  congrArg (tree id node.kind) (Fields.put_comm h ..)

/-- The tree with another node at the end of a path. The nodes above it are made anew; each is
numbered by how many of them stand below it. -/
def graft (root : Node) (path : List Step) (new : Node) (number : Nat → Nat) : Node :=
  match path with
  | [] => new
  | step :: path =>
    match root.childAt? step with
    | some child => root.put step (child.graft path new number) (number path.length)
    | none => root

section Graft

variable {root : Node} {path front rest : List Step} {number : Nat → Nat}

@[simp]
theorem graft_nil : root.graft [] new number = new := rfl

theorem graft_cons (hc : root.childAt? step = some child) :
    root.graft (step :: path) new number =
      root.put step (child.graft path new number) (number path.length) := by
  rw [graft, hc]

@[simp]
theorem nodeAt?_nil : root.nodeAt? [] = some root := rfl

theorem nodeAt?_cons :
    root.nodeAt? (step :: path) = (root.childAt? step).bind (·.nodeAt? path) := by
  rw [nodeAt?, List.foldlM_cons]
  rfl

theorem nodeAt?_append :
    root.nodeAt? (front ++ rest) = (root.nodeAt? front).bind (·.nodeAt? rest) := by
  rw [nodeAt?, List.foldlM_append]
  rfl

/-- Grafting along two stretches of a path is grafting a graft. -/
theorem nodeAt?_graft_append (h : root.nodeAt? front = some node) :
    (root.graft (front ++ rest) new number).nodeAt? front = some (node.graft rest new number) := by
  induction front generalizing root with
  | nil =>
    cases h
    rfl
  | cons step front ih =>
    rw [nodeAt?_cons] at h
    obtain ⟨child, hc, hn⟩ := Option.bind_eq_some_iff.mp h
    rw [List.cons_append, graft_cons hc, nodeAt?_cons, childAt?_put_of_some hc]
    exact ih hn

theorem nodeAt?_graft_self (h : root.nodeAt? path = some node) :
    (root.graft path new number).nodeAt? path = some new := by
  have ha : (root.graft (path ++ []) new number).nodeAt? path = some (node.graft [] new number) :=
    nodeAt?_graft_append h
  rwa [List.append_nil] at ha

/-- Away from the path the graft has the nodes of the old tree. -/
theorem nodeAt?_graft_aside {other : List Step} (hp : ¬ path <+: other) (ho : ¬ other <+: path) :
    (root.graft path new number).nodeAt? other = root.nodeAt? other := by
  induction path generalizing root other with
  | nil => exact absurd List.nil_prefix hp
  | cons step path ih =>
    cases other with
    | nil => exact absurd List.nil_prefix ho
    | cons turn other =>
      cases hc : root.childAt? step with
      | none => rw [graft, hc]
      | some child =>
        rw [graft_cons hc, nodeAt?_cons, nodeAt?_cons]
        by_cases he : step = turn
        · subst he
          rw [childAt?_put_of_some hc, hc]
          exact ih (fun h => hp (List.cons_prefix_cons.mpr ⟨rfl, h⟩))
            fun h => ho (List.cons_prefix_cons.mpr ⟨rfl, h⟩)
        · rw [childAt?_put_of_ne he]

theorem kind_graft (hc : root.childAt? step = some child) :
    (root.graft (step :: path) new number).kind = root.kind := by
  rw [graft_cons hc, kind_put]

theorem id_graft (hc : root.childAt? step = some child) :
    (root.graft (step :: path) new number).id = number path.length := by
  rw [graft_cons hc, id_put]

theorem graft_append (h : root.nodeAt? front = some node) :
    root.graft front (node.graft rest new number) (fun depth => number (depth + rest.length)) =
      root.graft (front ++ rest) new number := by
  induction front generalizing root with
  | nil =>
    cases h
    rfl
  | cons step front ih =>
    rw [nodeAt?_cons] at h
    obtain ⟨child, hc, hn⟩ := Option.bind_eq_some_iff.mp h
    rw [List.cons_append, graft_cons hc, graft_cons hc, ih hn, List.length_append]

/-- A second graft at the place of the first leaves nothing of it. -/
theorem graft_graft (h : root.nodeAt? path = some node) (first second : Node)
    (early late : Nat → Nat) :
    (root.graft path first early).graft path second late = root.graft path second late := by
  induction path generalizing root with
  | nil => rfl
  | cons step path ih =>
    rw [nodeAt?_cons] at h
    obtain ⟨child, hc, hn⟩ := Option.bind_eq_some_iff.mp h
    rw [graft_cons hc, graft_cons hc, graft_cons (childAt?_put_of_some hc), put_put, ih hn]

end Graft

/-- What a tree has become when a node was put at the end of a path: that node stands there, every
node above it is new and of the same kind, and beside the path nothing changed. -/
structure Replaced (root : Node) (path : List Step) (new : Node) (next : Nat) (result : Node) :
    Prop where
  here : result.nodeAt? path = some new
  above : ∀ front rest, path = front ++ rest → rest ≠ [] → ∃ old rebuilt,
    root.nodeAt? front = some old ∧ result.nodeAt? front = some rebuilt ∧
      rebuilt.kind = old.kind ∧ rebuilt.id + 1 = next + rest.length
  aside : ∀ other, ¬ path <+: other → ¬ other <+: path →
    result.nodeAt? other = root.nodeAt? other

theorem replaced_graft {root old : Node} {path : List Step} (h : root.nodeAt? path = some old)
    (new : Node) (next : Nat) :
    Replaced root path new next (root.graft path new (next + ·)) := by
  refine ⟨nodeAt?_graft_self h, fun front rest he hr => ?_, fun other => nodeAt?_graft_aside⟩
  subst he
  rw [nodeAt?_append] at h
  obtain ⟨node, hn, hrest⟩ := Option.bind_eq_some_iff.mp h
  cases rest with
  | nil => exact absurd rfl hr
  | cons step rest =>
    rw [nodeAt?_cons] at hrest
    obtain ⟨child, hc, _⟩ := Option.bind_eq_some_iff.mp hrest
    refine ⟨node, _, hn, nodeAt?_graft_append hn, kind_graft hc, ?_⟩
    rw [id_graft hc, List.length_cons]
    omega

end Node

end ProgramTree
