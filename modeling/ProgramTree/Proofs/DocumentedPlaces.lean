import Mathlib.Data.List.Permutation
import ProgramTree.Proofs.ConflictSites
import ProgramTree.Proofs.PathOrder

namespace ProgramTree

namespace Kind

variable {kind : Kind}

theorem isProse_of_purpose (h : kind.purpose = .document) : kind.isProse = true := by
  revert h
  cases kind <;> decide

/-- Nothing that computes, declares or takes part in a program is made of documentation. -/
theorem not_mem_of_isProse (h : kind.isProse = true) :
    kind ∉ [block, bind, evaluate, binaryEvaluate, input, borrow, source] := by
  revert h
  cases kind <;> decide

end Kind

namespace Occurrence

/-- What stands here is documentation, or part of it. -/
def isDocumentation (place : Occurrence) : Bool :=
  (place.node :: place.ancestors).any (·.purpose = .document)

/-- Documentation begins here. -/
def opensDocumentation (place : Occurrence) : Bool :=
  place.node.purpose = .document && !place.ancestors.any (·.purpose = .document)

variable {root : Node} {step : Step} {inner : Occurrence}

@[simp]
theorem isDocumentation_root (root : Node) :
    isDocumentation ⟨[], [], root⟩ = decide (root.purpose = .document) := by
  simp [isDocumentation]

@[simp]
theorem opensDocumentation_root (root : Node) :
    opensDocumentation ⟨[], [], root⟩ = decide (root.purpose = .document) := by
  simp [opensDocumentation]

theorem isDocumentation_below (hd : root.purpose ≠ .document) :
    (inner.below root step).isDocumentation = inner.isDocumentation := by
  simp [isDocumentation, below, hd]

theorem opensDocumentation_below (hd : root.purpose ≠ .document) :
    (inner.below root step).opensDocumentation = inner.opensDocumentation := by
  simp only [opensDocumentation, below, List.any_cons, hd, decide_false, Bool.false_or]
  rfl

end Occurrence

namespace Node

variable {root node document : Node}

/-- The outermost documentation of a tree is the tree itself when its root is documentation, and
otherwise that of the children. -/
theorem documentNodes_eq (root : Node) :
    root.documentNodes =
      if root.purpose = .document then [root] else root.children.flatMap documentNodes := by
  have hc : Collects fun seen node =>
      if node.purpose = .document then (seen.push node, false) else (seen, true) := by
    intro before seen node
    by_cases hd : node.purpose = .document <;> simp [hd]
  refine (hc.toList_walk_eq root).trans ?_
  by_cases hd : root.purpose = .document
  · simp [hd]
  · simp only [hd, if_false]
    rfl

/-- The nodes at chosen places, where the choice does not depend on the root: those below the
children, after the root if it is chosen. -/
theorem map_node_filter_occurrences {choice : Occurrence → Bool}
    (hc : ∀ step inner, choice (inner.below root step) = choice inner) :
    (root.occurrences.filter choice).map (·.node) =
      (if choice ⟨[], [], root⟩ then [root] else []) ++
        root.children.flatMap fun child => (child.occurrences.filter choice).map (·.node) := by
  have hbranch : ∀ branch ∈ root.branches,
      ((branch.2.occurrences.map (.below root branch.1)).filter choice).map (·.node) =
        (branch.2.occurrences.filter choice).map (·.node) := by
    intro branch _
    rw [List.filter_map, List.map_map]
    have hsame : choice ∘ Occurrence.below root branch.1 = choice := funext (hc branch.1)
    rw [hsame]
    rfl
  rw [occurrences_eq, ← map_snd_branches, List.flatMap_map, List.filter_cons, List.filter_flatMap]
  split
  · rw [List.map_cons, List.map_flatMap, List.flatMap_congr hbranch]
    rfl
  · rw [List.map_flatMap, List.flatMap_congr hbranch]
    rfl

theorem isDocumentation_of_mem_occurrences (hd : root.purpose = .document) {place : Occurrence}
    (hp : place ∈ root.occurrences) : place.isDocumentation = true := by
  rcases mem_occurrences.mp hp with rfl | ⟨step, child, inner, _, _, rfl⟩
  · simp [Occurrence.isDocumentation, hd]
  · simp [Occurrence.isDocumentation, Occurrence.below, hd]

theorem filter_isDocumentation_of_document (hd : root.purpose = .document) :
    root.occurrences.filter (·.isDocumentation) = root.occurrences :=
  List.filter_eq_self.mpr fun _ => isDocumentation_of_mem_occurrences hd

/-- What is evaluated of a tree are the nodes outside of documentation. -/
theorem evaluatedNodes_eq_filter (root : Node) :
    root.evaluatedNodes = (root.occurrences.filter (!·.isDocumentation)).map (·.node) := by
  induction root using induction_children with
  | step root ih =>
    rw [evaluatedNodes_eq]
    by_cases hd : root.purpose = .document
    · have hnone : root.occurrences.filter (!·.isDocumentation) = [] := by
        rw [List.filter_eq_nil_iff]
        intro place hp
        simp [isDocumentation_of_mem_occurrences hd hp]
      rw [hnone, hd]
      rfl
    · have he : root.purpose.isEvaluated = true := by simpa [Purpose.isEvaluated] using hd
      rw [map_node_filter_occurrences fun step inner => by
        rw [Occurrence.isDocumentation_below hd], ← List.flatMap_congr ih]
      simp [hd, he]

/-- What stands in documentation are the outermost documentation and all nodes below. -/
theorem flatMap_documentNodes (root : Node) :
    root.documentNodes.flatMap descendants =
      (root.occurrences.filter (·.isDocumentation)).map (·.node) := by
  induction root using induction_children with
  | step root ih =>
    rw [documentNodes_eq]
    by_cases hd : root.purpose = .document
    · rw [if_pos hd, filter_isDocumentation_of_document hd, map_node_occurrences,
        List.flatMap_singleton]
    · rw [if_neg hd, List.flatMap_assoc, List.flatMap_congr ih,
        map_node_filter_occurrences fun step inner => Occurrence.isDocumentation_below hd]
      simp [hd]

theorem documentNodes_eq_filter (root : Node) :
    root.documentNodes = (root.occurrences.filter (·.opensDocumentation)).map (·.node) := by
  induction root using induction_children with
  | step root ih =>
    rw [documentNodes_eq]
    by_cases hd : root.purpose = .document
    · have hbelow : (root.branches.flatMap fun branch => branch.2.occurrences.map
          (Occurrence.below root branch.1)).filter Occurrence.opensDocumentation = [] := by
        rw [List.filter_eq_nil_iff]
        intro place hp
        obtain ⟨branch, _, hp⟩ := List.mem_flatMap.mp hp
        obtain ⟨inner, _, rfl⟩ := List.mem_map.mp hp
        simp [Occurrence.opensDocumentation, Occurrence.below, hd]
      have hroot : Occurrence.opensDocumentation ⟨[], [], root⟩ = true := by simp [hd]
      rw [if_pos hd, occurrences_eq, List.filter_cons_of_pos hroot, hbelow]
      rfl
    · rw [if_neg hd, List.flatMap_congr ih,
        map_node_filter_occurrences fun step inner => Occurrence.opensDocumentation_below hd]
      simp [hd]

theorem purpose_of_mem_documentNodes (hd : document ∈ root.documentNodes) :
    document.purpose = .document := by
  rw [documentNodes_eq_filter] at hd
  obtain ⟨place, hp, rfl⟩ := List.mem_map.mp hd
  have hopens := (List.mem_filter.mp hp).2
  rw [Occurrence.opensDocumentation, Bool.and_eq_true] at hopens
  exact of_decide_eq_true hopens.1

theorem mem_descendants_of_mem_documentNodes (hd : document ∈ root.documentNodes) :
    document ∈ root.descendants := by
  rw [documentNodes_eq_filter] at hd
  rw [← map_node_occurrences]
  exact (List.filter_sublist.map _).subset hd

/-- Where documentation begins, nothing above is listed as documentation. -/
theorem not_mem_documentNodes_of_opensDocumentation {place : Occurrence} {above : Node}
    (h : place.opensDocumentation = true) (ha : above ∈ place.ancestors) :
    above ∉ root.documentNodes := by
  intro hd
  rw [Occurrence.opensDocumentation, Bool.and_eq_true, Bool.not_eq_true', List.any_eq_false] at h
  exact h.2 above ha (decide_eq_true (purpose_of_mem_documentNodes hd))

namespace WellFormed

/-- No place where documentation begins lies below another one. -/
theorem path_eq_of_opensDocumentation (h : root.WellFormed) {outer inner : Occurrence}
    (ho : outer ∈ root.occurrences) (hi : inner ∈ root.occurrences)
    (hopens : outer.opensDocumentation = true) (hopensInner : inner.opensDocumentation = true)
    (hp : outer.path <+: inner.path) : outer.path = inner.path := by
  by_contra hne
  -- The shorter path leads to one of the nodes above the other place.
  have hlt : outer.path.length < inner.path.length :=
    Nat.lt_of_le_of_ne hp.length_le fun he => hne (hp.eq_of_length he)
  have hat := h.nodeAt?_take hi hp.length_le
  have hbound : outer.path.length < inner.ancestors.length := by
    rw [length_ancestors hi]
    exact hlt
  rw [← List.prefix_iff_eq_take.mp hp, h.nodeAt?_of_mem_occurrences ho,
    List.getElem?_append_left hbound] at hat
  have habove : outer.node ∈ inner.ancestors := List.mem_of_getElem? hat.symm
  simp only [Occurrence.opensDocumentation, Bool.and_eq_true, decide_eq_true_eq,
    Bool.not_eq_true', List.any_eq_false] at hopens hopensInner
  exact hopensInner.2 outer.node habove hopens.1

/-- Below documentation there is documentation only. -/
theorem isProse_of_mem_documentNodes (h : root.WellFormed) (hd : document ∈ root.documentNodes)
    (hn : node ∈ document.descendants) : node.kind.isProse = true := by
  have hdocument := Kind.isProse_of_purpose (purpose_of_mem_documentNodes hd)
  have hw := h.of_mem_descendants (mem_descendants_of_mem_documentNodes hd)
  by_contra hk
  have hfalse := hw.not_isProse_of_mem_descendants hn (by simpa using hk)
  rw [hdocument] at hfalse
  cases hfalse

end WellFormed

/-- The places of a tree are parted into those outside of documentation, where the evaluated nodes
stand, and those in documentation, where the outermost documentation and all below it stand; both
parts keep their order. No documentation that is listed lies in another, and in a well-formed tree
none of it holds anything that is evaluated for its own sake. -/
theorem documentation_parted (root : Node) :
    root.descendants = root.occurrences.map (·.node) ∧
      root.evaluatedNodes = (root.occurrences.filter (!·.isDocumentation)).map (·.node) ∧
      root.documentNodes.flatMap descendants =
        (root.occurrences.filter (·.isDocumentation)).map (·.node) ∧
      root.documentNodes = (root.occurrences.filter (·.opensDocumentation)).map (·.node) ∧
      (root.evaluatedNodes ++ root.documentNodes.flatMap descendants).Perm root.descendants ∧
      (∀ place ∈ root.occurrences, place.opensDocumentation = true →
        ∀ above ∈ place.ancestors, above ∉ root.documentNodes) ∧
      (root.WellFormed →
        (∀ outer ∈ root.occurrences, ∀ inner ∈ root.occurrences,
          outer.opensDocumentation = true → inner.opensDocumentation = true →
            outer.path <+: inner.path → outer.path = inner.path) ∧
        ∀ document ∈ root.documentNodes, ∀ node ∈ document.descendants,
          node.kind.isDefinition = false ∧
            node.kind ∉ [.block, .bind, .evaluate, .binaryEvaluate, .input, .borrow, .source]) := by
  refine ⟨root.map_node_occurrences.symm, root.evaluatedNodes_eq_filter,
    root.flatMap_documentNodes, root.documentNodes_eq_filter, ?_,
    fun _ _ hopens _ ha => not_mem_documentNodes_of_opensDocumentation hopens ha,
    fun h => ⟨?_, ?_⟩⟩
  · rw [evaluatedNodes_eq_filter, flatMap_documentNodes, ← map_node_occurrences, ← List.map_append]
    refine (List.perm_append_comm.trans ?_).map _
    exact List.filter_append_perm Occurrence.isDocumentation root.occurrences
  · exact fun outer ho inner hi hopens hother hp =>
      h.path_eq_of_opensDocumentation ho hi hopens hother hp
  · intro document hd node hn
    have hprose := h.isProse_of_mem_documentNodes hd hn
    refine ⟨?_, Kind.not_mem_of_isProse hprose⟩
    by_contra hdefinition
    have hfalse := Kind.not_isProse_of_isDefinition (by simpa using hdefinition)
    rw [hprose] at hfalse
    cases hfalse

/-- What is written about a structure mentions a name, and holds no expression for that. -/
theorem documentation_parted_documentedSource :
    Program.documentedSource.WellFormed ∧
      Program.documentedSource.documentNodes = [Program.formDocs] ∧
      ∀ node ∈ Program.formDocs.descendants, node.kind.isDefinition = false ∧
        node.kind ∉ [.block, .bind, .evaluate, .binaryEvaluate, .input, .borrow, .source] := by
  have h : Program.documentedSource.WellFormed := by decide +kernel
  have hdocs : Program.documentedSource.documentNodes = [Program.formDocs] := by cbv
  obtain ⟨-, -, -, -, -, -, hwell⟩ := documentation_parted Program.documentedSource
  refine ⟨h, hdocs, (hwell h).2 Program.formDocs ?_⟩
  rw [hdocs]
  exact List.mem_singleton_self _

end Node

end ProgramTree
