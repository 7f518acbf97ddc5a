import Mathlib.Data.List.Basic
import ProgramTree.Path
import ProgramTree.Proofs.WellFormed

namespace ProgramTree

/-- A place of a tree where a node stands. A shared node has one occurrence for each of its
places. -/
structure Occurrence where
  path : List Step
  /-- The nodes above it, the root first. -/
  ancestors : List Node
  node : Node

/-- The same place, seen from the parent of the root. -/
def Occurrence.below (parent : Node) (step : Step) (occurrence : Occurrence) : Occurrence :=
  ⟨step :: occurrence.path, parent :: occurrence.ancestors, occurrence.node⟩

namespace Node

section Walk

variable {σ : Type} (visit : σ → Node → σ × Bool)

theorem walkStack_append (state : σ) (first second : List Node) :
    walkStack visit state (first ++ second) =
      walkStack visit (walkStack visit state first) second := by
  fun_induction walkStack visit state first with
  | case1 state => simp
  | case2 state node rest next descend hv ih =>
    rw [List.cons_append, walkStack, hv]
    cases descend <;> simpa using ih

theorem walkStack_eq_foldl (state : σ) (nodes : List Node) :
    walkStack visit state nodes = nodes.foldl (walk visit) state := by
  induction nodes generalizing state with
  | nil => simp [walkStack]
  | cons node rest ih =>
    rw [← List.singleton_append, walkStack_append, ih]
    rfl

/-- A walk visits the root and, where the visitor descends, walks through the children in turn. -/
theorem walk_eq (state : σ) (root : Node) :
    walk visit state root =
      if (visit state root).2 then root.children.foldl (walk visit) (visit state root).1
      else (visit state root).1 := by
  rw [walk, walkStack, ← walkStack_eq_foldl]
  obtain ⟨next, descend⟩ := visit state root
  cases descend <;> simp [walkStack]

end Walk

/-- A visitor that adds what it sees to what was seen before, whatever that is. -/
def Collects (visit : Array Node → Node → Array Node × Bool) : Prop :=
  ∀ before seen node,
    visit (before ++ seen) node = (before ++ (visit seen node).1, (visit seen node).2)

section Collects

variable {visit : Array Node → Node → Array Node × Bool} (hv : Collects visit)

include hv

theorem Collects.walkStack_append (before seen : Array Node) (stack : List Node) :
    walkStack visit (before ++ seen) stack = before ++ walkStack visit seen stack := by
  fun_induction walkStack visit seen stack with
  | case1 seen => simp [walkStack]
  | case2 seen node rest next descend he ih =>
    rw [walkStack, hv, he]
    exact ih

theorem Collects.toList_walk (seen : Array Node) (root : Node) :
    (walk visit seen root).toList = seen.toList ++ (walk visit #[] root).toList := by
  have h := hv.walkStack_append seen #[] [root]
  rw [Array.append_empty] at h
  rw [walk, h, Array.toList_append]
  rfl

theorem Collects.toList_foldl_walk (seen : Array Node) (nodes : List Node) :
    (nodes.foldl (walk visit) seen).toList =
      seen.toList ++ nodes.flatMap fun node => (walk visit #[] node).toList := by
  induction nodes generalizing seen with
  | nil => simp
  | cons node rest ih => rw [List.foldl_cons, ih, hv.toList_walk]; simp

/-- What a walk collects from a tree: what the visitor adds for the root and, where it descends,
what is collected from the children. -/
theorem Collects.toList_walk_eq (root : Node) :
    (walk visit #[] root).toList = (visit #[] root).1.toList ++
      if (visit #[] root).2 then
        root.children.flatMap fun child => (walk visit #[] child).toList
      else [] := by
  rw [walk_eq]
  split
  next => rw [hv.toList_foldl_walk]
  next => simp

end Collects

theorem descendants_eq (root : Node) :
    root.descendants = root :: root.children.flatMap descendants :=
  Collects.toList_walk_eq (fun before seen node => by simp) root

/-- The evaluated nodes of a tree are none when its root is documentation, and otherwise the root
and the evaluated nodes below its children. -/
theorem evaluatedNodes_eq (root : Node) :
    root.evaluatedNodes =
      if root.purpose.isEvaluated then root :: root.children.flatMap evaluatedNodes else [] := by
  have hc : Collects fun seen node =>
      if node.purpose.isEvaluated then (seen.push node, true) else (seen, false) := by
    intro before seen node
    by_cases he : node.purpose.isEvaluated <;> simp [he]
  refine (hc.toList_walk_eq root).trans ?_
  cases root.purpose.isEvaluated <;> rfl

/-- Every place of a tree in pre-order. -/
def occurrences (root : Node) : List Occurrence :=
  ⟨[], [], root⟩ :: root.branches.attach.flatMap fun ⟨(step, child), _⟩ =>
    child.occurrences.map (.below root step)
termination_by sizeOf root
decreasing_by exact sizeOf_lt_of_mem_children (mem_children_of_branches ‹_›)

theorem occurrences_eq (root : Node) :
    root.occurrences = ⟨[], [], root⟩ :: root.branches.flatMap fun branch =>
      branch.2.occurrences.map (.below root branch.1) := by
  have ha := congrArg (List.flatMap fun branch : Step × Node =>
    branch.2.occurrences.map (Occurrence.below root branch.1))
    (List.attach_map_subtype_val root.branches)
  rw [List.flatMap_map] at ha
  rw [occurrences, ← ha]

theorem mem_occurrences {root : Node} {occurrence : Occurrence} :
    occurrence ∈ root.occurrences ↔
      occurrence = ⟨[], [], root⟩ ∨
        ∃ step child inner, (step, child) ∈ root.branches ∧ inner ∈ child.occurrences ∧
          occurrence = inner.below root step := by
  rw [occurrences_eq, List.mem_cons, List.mem_flatMap]
  constructor
  · rintro (h | ⟨⟨step, child⟩, hb, h⟩)
    · exact Or.inl h
    · obtain ⟨inner, hi, he⟩ := List.mem_map.mp h
      exact Or.inr ⟨step, child, inner, hb, hi, he.symm⟩
  · rintro (h | ⟨step, child, inner, hb, hi, he⟩)
    · exact Or.inl h
    · exact Or.inr ⟨(step, child), hb, List.mem_map.mpr ⟨inner, hi, he.symm⟩⟩

theorem map_node_occurrences (root : Node) :
    root.occurrences.map (·.node) = root.descendants := by
  induction root using induction_children with
  | step root ih =>
    have hb : ∀ branch ∈ root.branches,
        (branch.2.occurrences.map (Occurrence.below root branch.1)).map (·.node) =
          branch.2.descendants := by
      intro branch hm
      rw [List.map_map, ← ih branch.2 (mem_children_of_branches hm)]
      rfl
    rw [occurrences_eq, descendants_eq, List.map_cons, List.map_flatMap, ← map_snd_branches,
      List.flatMap_map, List.flatMap_congr hb]

theorem mem_descendants {root node : Node} :
    node ∈ root.descendants ↔ node = root ∨ ∃ child ∈ root.children, node ∈ child.descendants := by
  rw [descendants_eq, List.mem_cons, List.mem_flatMap]

theorem WellFormed.of_mem_descendants {root node : Node} (h : root.WellFormed)
    (hn : node ∈ root.descendants) : node.WellFormed := by
  induction root using induction_children with
  | step root ih =>
    rcases mem_descendants.mp hn with rfl | ⟨child, hc, hd⟩
    · exact h
    · exact ih child hc (h.of_mem_children hc) hd

theorem mem_descendants_self (root : Node) : root ∈ root.descendants :=
  mem_descendants.mpr (Or.inl rfl)

theorem mem_descendants_trans {root holder node : Node} (hh : holder ∈ root.descendants)
    (hn : node ∈ holder.descendants) : node ∈ root.descendants := by
  induction root using induction_children with
  | step root ih =>
    rcases mem_descendants.mp hh with rfl | ⟨child, hc, hd⟩
    · exact hn
    · exact mem_descendants.mpr (Or.inr ⟨child, hc, ih child hc hd⟩)

/-- A tree is well formed when each of its nodes is, one by one. -/
theorem wellFormed_iff {root : Node} :
    root.WellFormed ↔ ∀ node ∈ root.descendants, node.isShaped = true := by
  constructor
  · intro h node hn
    cases h.of_mem_descendants hn with
    | token => rfl
    | tree hk hf => exact isShaped_tree.mpr ⟨hk, hf⟩
  · intro h
    induction root using induction_children with
    | step root ih =>
      have hc : ∀ child ∈ root.children, child.WellFormed := fun child hc =>
        ih child hc fun node hn => h node (mem_descendants.mpr (Or.inr ⟨child, hc, hn⟩))
      have hr := h root (mem_descendants_self root)
      cases root with
      | token => exact .token ..
      | tree id kind fields =>
        obtain ⟨hk, hf⟩ := isShaped_tree.mp hr
        exact .tree hk hf hc

instance (root : Node) : Decidable root.WellFormed :=
  decidable_of_iff (∀ node ∈ root.descendants, node.isShaped = true) wellFormed_iff.symm

theorem length_ancestors {root : Node} {occurrence : Occurrence}
    (h : occurrence ∈ root.occurrences) :
    occurrence.ancestors.length = occurrence.path.length := by
  induction root using induction_children generalizing occurrence with
  | step root ih =>
    rcases mem_occurrences.mp h with rfl | ⟨step, child, inner, hb, hi, rfl⟩
    · rfl
    · simp [Occurrence.below, ih child (mem_children_of_branches hb) hi]

theorem WellFormed.childAt?_of_mem_branches {node child : Node} {step : Step}
    (h : node.WellFormed) (hb : (step, child) ∈ node.branches) :
    node.childAt? step = some child := by
  obtain ⟨⟨name, content⟩, hf, hb⟩ := List.mem_flatMap.mp hb
  obtain ⟨⟨index, inner⟩, hi, he⟩ := List.mem_map.mp hb
  cases he
  have hl := h.field?_of_mem hf
  cases content with
  | one single =>
    cases List.mem_singleton.mp hi
    simp [childAt?, hl]
  | optional present =>
    cases present with
    | none => simp [Field.indexed] at hi
    | some present =>
      cases List.mem_singleton.mp hi
      simp [childAt?, hl]
  | list nodes =>
    obtain ⟨⟨element, position⟩, hp, he⟩ := List.mem_map.mp hi
    cases he
    simpa [childAt?, hl] using List.mem_zipIdx_iff_getElem?.mp hp

/-- Following the path of a place leads through its ancestors to its node. -/
theorem WellFormed.nodeAt?_take {root : Node} (h : root.WellFormed) {occurrence : Occurrence}
    (ho : occurrence ∈ root.occurrences) {depth : Nat} (hd : depth ≤ occurrence.path.length) :
    root.nodeAt? (occurrence.path.take depth) =
      (occurrence.ancestors ++ [occurrence.node])[depth]? := by
  induction root using induction_children generalizing occurrence depth with
  | step root ih =>
    rcases mem_occurrences.mp ho with rfl | ⟨step, child, inner, hb, hi, rfl⟩
    · have hz : depth = 0 := by simpa using hd
      subst hz
      rfl
    · cases depth with
      | zero => rfl
      | succ depth =>
        have hc := mem_children_of_branches hb
        have hs := h.childAt?_of_mem_branches hb
        have hd' : depth ≤ inner.path.length := by simpa [Occurrence.below] using hd
        have hi' := ih child hc (h.of_mem_children hc) hi hd'
        simpa [Occurrence.below, nodeAt?, hs] using hi'

end Node

end ProgramTree
