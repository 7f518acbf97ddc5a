import ProgramTree.Findings
import ProgramTree.Proofs.CallResolution
import ProgramTree.Proofs.FoundConflicts
import ProgramTree.Proofs.Parts

namespace ProgramTree

namespace Node

variable {root node child : Node}

theorem mem_descendants_of_mem_children (h : node ∈ root.descendants)
    (hc : child ∈ node.children) : child ∈ root.descendants :=
  mem_descendants_trans h (mem_descendants.mpr (Or.inr ⟨child, hc, mem_descendants_self child⟩))

theorem mem_descendants_of_mem_ancestors {occurrence : Occurrence}
    (ho : occurrence ∈ root.occurrences) (hn : node ∈ occurrence.ancestors) :
    node ∈ root.descendants := by
  induction root using induction_children generalizing occurrence with
  | step root ih =>
    rcases mem_occurrences.mp ho with rfl | ⟨step, inner, below, hb, hi, rfl⟩
    · simp at hn
    · rcases List.mem_cons.mp hn with rfl | hn
      · exact mem_descendants_self node
      · have hinner := mem_children_of_branches hb
        exact mem_descendants.mpr (Or.inr ⟨inner, hinner, ih inner hinner hi hn⟩)

theorem mem_descendants_of_mem_occurrences {occurrence : Occurrence}
    (ho : occurrence ∈ root.occurrences) : occurrence.node ∈ root.descendants := by
  rw [← map_node_occurrences]
  exact List.mem_map.mpr ⟨occurrence, ho, rfl⟩

theorem passed_sublist_children (node : Node) : node.passed.Sublist node.children := by
  unfold passed
  split
  next => exact elements_sublist_children node "inputs"
  next => exact single?_sublist_children node "right"

/-- A name that a node binds to a definition is bound to one of its statements. -/
theorem definition_of_binding? {name : String}
    (h : node.binding? name = some (.definition child)) :
    child.kind.isDefinition = true ∧ child ∈ node.children := by
  unfold binding? at h
  split at h
  next =>
    obtain ⟨_, _, he⟩ := Option.map_eq_some_iff.mp h
    cases he
  next =>
    obtain ⟨statement, hs, he⟩ := Option.map_eq_some_iff.mp h
    split at he
    next hd =>
      cases he
      exact ⟨hd, mem_children_of_mem_statements (List.mem_of_find?_eq_some hs)⟩
    next => cases he

end Node

namespace Program

variable {program : Program} {source node definition child : Node} {ancestors : List Node}
  {name : String} {occurrence : Occurrence}

/-- The node occurrences of all sources, those of each source in pre-order. -/
def nodes (program : Program) : List Node :=
  program.sources.flatMap Node.descendants

theorem mem_nodes : node ∈ program.nodes ↔ ∃ source ∈ program.sources, node ∈ source.descendants :=
  List.mem_flatMap

theorem mem_nodes_of_mem_sources (h : source ∈ program.sources) : source ∈ program.nodes :=
  mem_nodes.mpr ⟨source, h, Node.mem_descendants_self source⟩

theorem mem_nodes_of_mem_children (h : node ∈ program.nodes) (hc : child ∈ node.children) :
    child ∈ program.nodes := by
  obtain ⟨source, hs, hn⟩ := mem_nodes.mp h
  exact mem_nodes.mpr ⟨source, hs, Node.mem_descendants_of_mem_children hn hc⟩

/-- A name denotes nothing but definitions of the program. -/
theorem Denotes.mem_nodes (ha : ∀ ancestor ∈ ancestors, ancestor ∈ program.nodes)
    (h : program.Denotes ancestors name definition) :
    definition.kind.isDefinition = true ∧ definition ∈ program.nodes := by
  rcases h with ⟨rfl, hb, _⟩ | ⟨_, hs, hk, _, _⟩
  · obtain ⟨hk, hc⟩ := Node.definition_of_binding? hb
    exact ⟨hk, mem_nodes_of_mem_children (ha _ (by simp)) hc⟩
  · have hd : definition ∈ program.sources.flatMap Node.topLevel := by simp [hs]
    obtain ⟨source, hs, ht⟩ := List.mem_flatMap.mp hd
    obtain ⟨body, hb, hd⟩ := Node.exists_body_of_mem_topLevel ht
    have hbody := mem_nodes_of_mem_children (mem_nodes_of_mem_sources hs) hb
    exact ⟨hk, mem_nodes_of_mem_children hbody (Node.mem_children_of_mem_statements hd)⟩

theorem Callee.mem_nodes {callee : Node} (ha : ∀ ancestor ∈ ancestors, ancestor ∈ program.nodes)
    (hc : callee ∈ program.nodes) (h : program.Callee ancestors callee definition) :
    definition.kind.isDefinition = true ∧ definition ∈ program.nodes := by
  rcases h with ⟨_, _, hd⟩ | hd
  · exact hd.mem_nodes ha
  · exact ⟨hd, hc⟩

/-- What a node of a program calls is a definition of the program, in whatever source. -/
theorem mem_nodes_of_called? (hs : source ∈ program.sources)
    (ho : occurrence ∈ source.occurrences)
    (h : (Globals.ofProgram program).called? (.around occurrence.ancestors) occurrence.node =
      some definition) :
    definition.kind.isDefinition = true ∧ definition ∈ program.nodes := by
  have hn : occurrence.node ∈ program.nodes :=
    mem_nodes.mpr ⟨source, hs, Node.mem_descendants_of_mem_occurrences ho⟩
  have ha : ∀ ancestor ∈ occurrence.ancestors, ancestor ∈ program.nodes := fun _ hm =>
    mem_nodes.mpr ⟨source, hs, Node.mem_descendants_of_mem_ancestors ho hm⟩
  unfold Globals.called? at h
  split at h
  next =>
    obtain ⟨callee, hf, hc⟩ := Option.bind_eq_some_iff.mp h
    have hcallee := mem_nodes_of_mem_children hn (Node.mem_children_of_single? hf)
    exact (Globals.definitionOf?_eq_some_iff.mp hc).mem_nodes ha hcallee
  next =>
    obtain ⟨operator, _, hd⟩ := Option.bind_eq_some_iff.mp h
    obtain ⟨name, _, hd⟩ := Option.bind_eq_some_iff.mp hd
    exact (Globals.resolve?_eq_some_iff.mp hd).mem_nodes ha
  next => cases h

end Program

namespace Globals

variable {globals : Globals} {source : Node} {conflict : Conflict}

theorem sourceConflicts_eq_flatMap (globals : Globals) (source : Node) :
    globals.sourceConflicts source = source.occurrences.flatMap fun occurrence =>
      globals.conflictsAt (.around occurrence.ancestors) occurrence.node := by
  rw [sourceConflicts, Node.scopedNodes_eq, List.flatMap_map]

theorem exists_finds_of_mem (h : conflict ∈ globals.sourceConflicts source) :
    ∃ occurrence ∈ source.occurrences,
      globals.Finds (.around occurrence.ancestors) occurrence.node conflict := by
  rw [sourceConflicts_eq_flatMap] at h
  obtain ⟨occurrence, ho, hc⟩ := List.mem_flatMap.mp h
  exact ⟨occurrence, ho, finds_of_mem_conflictsAt hc⟩

end Globals

end ProgramTree
