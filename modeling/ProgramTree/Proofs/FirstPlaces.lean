import ProgramTree.Proofs.FieldEdits
import ProgramTree.Proofs.History
import ProgramTree.Proofs.PathOrder

namespace ProgramTree.Node

variable {root target node child : Node} {step : Step} {path front rest : List Step}

theorem pathTo?_eq (target root : Node) :
    pathTo? target root =
      if root.same target then some []
      else root.branches.findSome? fun branch => (pathTo? target branch.2).map (branch.1 :: ·) := by
  have ha := congrArg (List.findSome? fun branch : Step × Node =>
    (pathTo? target branch.2).map (branch.1 :: ·)) (List.attach_map_subtype_val root.branches)
  rw [List.findSome?_map] at ha
  rw [pathTo?, ← ha]
  rfl

/-- The path to a node is that of its first occurrence. -/
theorem pathTo?_eq_find? (target root : Node) :
    pathTo? target root = (root.occurrences.find? (·.node.same target)).map (·.path) := by
  induction root using induction_children with
  | step root ih =>
    rw [pathTo?_eq, occurrences_eq, List.find?_cons]
    by_cases hs : root.same target = true
    · simp [hs]
    · have hb : ∀ branch ∈ root.branches,
          (pathTo? target branch.2).map (branch.1 :: ·) =
            ((branch.2.occurrences.map (Occurrence.below root branch.1)).find?
              (·.node.same target)).map (·.path) := by
        intro branch hm
        rw [ih branch.2 (mem_children_of_branches hm), List.find?_map, Option.map_map,
          Option.map_map]
        rfl
      rw [Bool.not_eq_true] at hs
      simp only [hs, Bool.false_eq_true, if_false, List.find?_flatMap, List.map_findSome?]
      rw [← List.head?_filterMap, ← List.head?_filterMap, List.filterMap_congr hb]
      rfl

theorem pathTo?_of_find? {place : Occurrence}
    (h : root.occurrences.find? (·.node.same target) = some place) :
    pathTo? target root = some place.path := by
  rw [pathTo?_eq_find?, h, Option.map_some]

theorem pathTo?_eq_none_iff :
    pathTo? target root = none ↔ ∀ node ∈ root.descendants, node.same target = false := by
  rw [pathTo?_eq_find?, Option.map_eq_none_iff, List.find?_eq_none, ← map_node_occurrences]
  simp

theorem exists_pathTo?_of_mem (ht : target ∈ root.descendants) :
    ∃ path, pathTo? target root = some path := by
  refine Option.ne_none_iff_exists'.mp fun hnone => ?_
  have hself := pathTo?_eq_none_iff.mp hnone target ht
  rw [same_self] at hself
  cases hself

theorem mem_branches_of_childAt? (h : root.childAt? step = some child) :
    (step, child) ∈ root.branches := by
  rw [childAt?_eq] at h
  obtain ⟨content, hf, hat⟩ := Option.bind_eq_some_iff.mp h
  obtain ⟨before, after, hfields, _⟩ := List.lookup_eq_some_iff.mp hf
  refine List.mem_flatMap.mpr ⟨(step.field, content), by simp [hfields], ?_⟩
  exact List.mem_map.mpr ⟨_, Field.at?_eq_some_iff.mp hat, rfl⟩

/-- A child found by the first branch that holds a target is foremost in its field. -/
theorem WellFormed.foremost (h : root.WellFormed) {next : Nat} {nodes : List Node}
    (hh : History next nodes) (hr : root ∈ nodes) {before after : List (Step × Node)}
    (hb : root.branches = before ++ (step, child) :: after)
    (hchild : (pathTo? target child).isSome = true)
    (hnone : ∀ branch ∈ before, pathTo? target branch.2 = none) : root.Foremost step child := by
  intro elements index hf hi
  have hc : root.childAt? step = some child :=
    h.childAt?_of_mem_branches (hb ▸ List.mem_append_right _ List.mem_cons_self)
  have hget : elements[index]? = some child := by
    simpa [childAt?_eq, hf, hi, Field.at?] using hc
  obtain ⟨hlt, hat⟩ := List.getElem?_eq_some_iff.mp hget
  rw [List.findIdx?_eq_some_iff_getElem]
  refine ⟨hlt, by simp [hat, same], fun j hj hsame => ?_⟩
  -- An earlier element that is the same node would be an earlier branch to the target.
  have hearlier : root.childAt? ⟨step.field, some j⟩ = some elements[j] := by
    simp [childAt?_eq, hf, Field.at?]
  have hmem := mem_branches_of_childAt? hearlier
  have heq : elements[j] = child := by
    have ha := hh.mem_of_mem_children hr (mem_children_of_branches hmem)
    have hb := hh.mem_of_mem_children hr (mem_children_of_childAt? hc)
    exact hh.eq_of_id_eq ha hb (by simpa [same] using hsame)
  rw [heq, hb] at hmem
  rcases List.mem_append.mp hmem with hm | hm
  · simp [hnone _ hm] at hchild
  rcases List.mem_cons.mp hm with he | hm
  · have hindex : step.index = some j := by
      rw [← (Prod.mk.inj he).1]
    rw [hi] at hindex
    cases hindex
    omega
  · have hpairs := h.pairwise_branches
    rw [hb, List.pairwise_append] at hpairs
    cases (List.pairwise_cons.mp hpairs.2.1).1 _ hm with
    | field hlt => exact absurd hlt (Nat.lt_irrefl _)
    | index _ he hl hlt =>
      cases hl
      cases hi.symm.trans he
      omega

theorem mem_descendants_of_nodeAt? (h : root.nodeAt? path = some node) :
    node ∈ root.descendants := by
  induction path generalizing root with
  | nil =>
    cases h
    exact mem_descendants_self _
  | cons step path ih =>
    rw [nodeAt?_cons] at h
    obtain ⟨child, hc, hn⟩ := Option.bind_eq_some_iff.mp h
    have hm := mem_children_of_childAt? hc
    exact mem_descendants.mpr (.inr ⟨child, hm, ih hn⟩)

/-- The path leads from one node to another, at each step to a foremost child. -/
inductive Leads : Node → List Step → Node → Prop
  | here (node : Node) : Leads node [] node
  | step {root child node : Node} {step : Step} {path : List Step}
      (hc : root.childAt? step = some child) (hf : root.Foremost step child)
      (h : Leads child path node) : Leads root (step :: path) node

theorem Leads.nodeAt?_eq (h : root.Leads path node) : root.nodeAt? path = some node := by
  induction h with
  | here => rfl
  | step hc _ _ ih => rw [nodeAt?_cons, hc, Option.bind_some, ih]

theorem pathTo?_eq_nil_iff : pathTo? target root = some [] ↔ root.same target = true := by
  rw [pathTo?_eq]
  split
  next hs => simp [hs]
  next hs =>
    refine iff_of_false (fun h => ?_) hs
    obtain ⟨_, _, he⟩ := List.exists_of_findSome?_eq_some h
    simp at he

theorem pathTo?_self (node : Node) : pathTo? node node = some [] :=
  pathTo?_eq_nil_iff.mpr (same_self node)

/-- A tree without a target holds no node that holds it. -/
theorem pathTo?_eq_none_of_holder {next : Nat} {nodes : List Node} (hh : History next nodes)
    (hr : root ∈ nodes) (hn : node ∈ nodes) (ht : (pathTo? target node).isSome = true)
    (h : pathTo? target root = none) : pathTo? node root = none := by
  refine pathTo?_eq_none_iff.mpr fun holder hd => ?_
  by_contra hs
  have he : holder = node :=
    hh.eq_of_id_eq (hh.mem_of_mem_descendants hr hd) hn (by simpa [same] using hs)
  have hnone : pathTo? target node = none := pathTo?_eq_none_iff.mpr fun inner hi =>
    pathTo?_eq_none_iff.mp h inner (mem_descendants_trans (he ▸ hd) hi)
  simp [hnone] at ht

/-- A node on the first path to a target. The path up to it is its own first path, and what is left
is the first path from there. -/
structure Midway (root target : Node) (front rest : List Step) (node : Node) : Prop where
  leads : root.Leads front node
  above : pathTo? node root = some front
  below : pathTo? target node = some rest

/-- The first path to a target can be parted anywhere. -/
theorem WellFormed.exists_midway (h : root.WellFormed) {next : Nat} {nodes : List Node}
    (hh : History next nodes) (hr : root ∈ nodes)
    (hp : pathTo? target root = some (front ++ rest)) :
    ∃ node, root.Midway target front rest node := by
  induction front generalizing root with
  | nil => exact ⟨root, .here root, pathTo?_self root, hp⟩
  | cons step front ih =>
    rw [pathTo?_eq] at hp
    split at hp
    next => cases hp
    next =>
      obtain ⟨before, ⟨turn, child⟩, after, hb, hsome, hnone⟩ := List.findSome?_eq_some_iff.mp hp
      obtain ⟨path, hpath, he⟩ := Option.map_eq_some_iff.mp hsome
      obtain ⟨rfl, rfl⟩ := List.cons.inj he
      have hm : (turn, child) ∈ root.branches := hb ▸ List.mem_append_right _ List.mem_cons_self
      have hc := mem_children_of_branches hm
      have hchild := hh.mem_of_mem_children hr hc
      obtain ⟨node, hleads, hfront, hrest⟩ := ih (h.of_mem_children hc) hchild hpath
      have hbefore : ∀ branch ∈ before, pathTo? target branch.2 = none :=
        fun branch hbranch => Option.map_eq_none_iff.mp (hnone branch hbranch)
      have hforemost := h.foremost hh hr hb (Option.isSome_of_mem hpath) hbefore
      refine ⟨node, .step (h.childAt?_of_mem_branches hm) hforemost hleads, ?_, hrest⟩
      have hbelow := mem_descendants_of_nodeAt? hleads.nodeAt?_eq
      have hlt := hh.id_lt_of_mem_children hr hc
      have hle := hh.id_le_of_mem_descendants hchild hbelow
      have hne : root.id ≠ node.id := by omega
      have hother : root.same node = false := by simpa [same] using hne
      rw [pathTo?_eq, hother, hb, List.findSome?_append, List.findSome?_eq_none_iff.mpr ?_]
      · simp [hfront]
      · intro branch hbranch
        have hmem := mem_children_of_branches (hb ▸ List.mem_append_left _ hbranch)
        rw [pathTo?_eq_none_of_holder hh (hh.mem_of_mem_children hr hmem)
          (hh.mem_of_mem_descendants hchild hbelow) (Option.isSome_of_mem hrest)
          (hbefore branch hbranch), Option.map_none]

theorem WellFormed.exists_leads (h : root.WellFormed) {next : Nat} {nodes : List Node}
    (hh : History next nodes) (hr : root ∈ nodes) (hp : pathTo? target root = some path) :
    ∃ node, root.Leads path node ∧ node.same target = true := by
  rw [← List.append_nil path] at hp
  obtain ⟨node, hmidway⟩ := h.exists_midway hh hr hp
  exact ⟨node, hmidway.leads, pathTo?_eq_nil_iff.mp hmidway.below⟩

namespace Leads

theorem wellFormed (h : root.Leads path node) (hw : root.WellFormed) : node.WellFormed := by
  induction h with
  | here => exact hw
  | step hc _ _ ih =>
    exact ih (hw.of_mem_children (mem_children_of_childAt? hc))

theorem mem (h : root.Leads path node) {next : Nat} {nodes : List Node} (hh : History next nodes)
    (hr : root ∈ nodes) : node ∈ nodes := by
  induction h with
  | here => exact hr
  | step hc _ _ ih =>
    exact ih (hh.mem_of_mem_children hr (mem_children_of_childAt? hc))

theorem append {inner : Node} (h : root.Leads front node) (hn : node.Leads rest inner) :
    root.Leads (front ++ rest) inner := by
  induction h with
  | here => exact hn
  | step hc hf _ ih => exact .step hc hf (ih hn)

theorem append_step (h : root.Leads front node) (hc : node.childAt? step = some child)
    (hf : node.Foremost step child) : root.Leads (front ++ [step]) child :=
  h.append (.step hc hf (.here child))

/-- The last step of a path is taken from the node that the rest leads to. -/
theorem exists_parent (h : root.Leads (front ++ [step]) node) :
    ∃ parent, root.Leads front parent ∧ parent.childAt? step = some node ∧
      parent.Foremost step node := by
  induction front generalizing root with
  | nil =>
    cases h with
    | step hc hf h =>
      cases h
      exact ⟨root, .here root, hc, hf⟩
  | cons first front ih =>
    cases h with
    | step hc hf h =>
      obtain ⟨parent, hparent, hstep⟩ := ih h
      exact ⟨parent, .step hc hf hparent, hstep⟩

end Leads

end ProgramTree.Node
