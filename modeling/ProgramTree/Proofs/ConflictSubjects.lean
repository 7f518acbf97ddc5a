import Mathlib.Data.List.Flatten
import Mathlib.Data.List.Nodup
import Mathlib.Data.List.Perm.Basic
import ProgramTree.Proofs.ArgumentSlots
import ProgramTree.Proofs.BorrowAccounts
import ProgramTree.Proofs.CycleCover
import ProgramTree.Proofs.Provenance

namespace ProgramTree

/-- The nodes that a conflict is about, by their numbers. -/
inductive Subject where
  | structureDefinition (id : Nat)
  | argument (id : Nat)
  | parameter (evaluate id : Nat)
  | borrow (id : Nat)
  | closingBorrow (id : Nat)
deriving DecidableEq, Repr

/-- What no two conflicts of a program should have in common: the structure, the argument, the call
and its parameter, the borrow, or the borrow that closes a circle. -/
def Conflict.subject : Conflict → Subject
  | borrowCycle _ closing _ => .closingBorrow closing.id
  | disallowedInputs structureNode => .structureDefinition structureNode.id
  | unexpectedInput _ _ input => .argument input.id
  | missingInput _ evaluate input => .parameter evaluate.id input.id
  | unknownBorrow borrow => .borrow borrow.id

/-- Below the root of a tree there are the children of its nodes. -/
theorem Node.flatMap_children_perm (root : Node) :
    (root.descendants.flatMap children).Perm (root.children.flatMap descendants) := by
  induction root using induction_children with
  | step root ih =>
    have hinner : (root.children.flatMap fun child => child.descendants.flatMap children).Perm
        (root.children.flatMap fun child => child.children.flatMap descendants) :=
      List.Perm.flatMap_left _ ih
    have houter := List.map_append_flatMap_perm root.children (fun child => child) fun child =>
      child.children.flatMap descendants
    have heach : ∀ child ∈ root.children,
        child.descendants = child :: child.children.flatMap descendants := fun child _ =>
      descendants_eq child
    rw [descendants_eq, List.flatMap_cons, List.flatMap_assoc, List.flatMap_congr heach]
    rw [List.map_id'] at houter
    exact (hinner.append_left _).trans houter

theorem Node.children_sublist_descendants (root : Node) :
    root.children.Sublist root.descendants := by
  have hsingle : (root.children.flatMap fun child => [child]).Sublist
      (root.children.flatMap descendants) := by
    refine .flatMap_right _ fun child _ => ?_
    rw [child.descendants_eq]
    exact List.singleton_sublist.mpr List.mem_cons_self
  rw [List.flatMap_singleton'] at hsingle
  rw [root.descendants_eq]
  exact hsingle.trans (List.sublist_cons_self _ _)

namespace Globals

variable {globals : Globals} {scope : Scope} {node definition : Node}

theorem nodup_arguments {inputs : List Node} (h : (inputs.map Node.id).Nodup) :
    (inputs.map fun input => Subject.argument input.id).Nodup := by
  have hmap := h.map (f := Subject.argument) fun _ _ he => Subject.argument.inj he
  simpa [Function.comp_def] using hmap

theorem nodup_parameters {inputs : List Node} (evaluate : Nat) (h : (inputs.map Node.id).Nodup) :
    (inputs.map fun input => Subject.parameter evaluate input.id).Nodup := by
  have hmap := h.map (f := Subject.parameter evaluate) fun _ _ he => (Subject.parameter.inj he).2
  simpa [Function.comp_def] using hmap

theorem nodup_argumentConflicts {arguments : List Node} (ha : (arguments.map Node.id).Nodup)
    (hp : (definition.declaredInputs.map Node.id).Nodup) :
    ((argumentConflicts definition node arguments).map Conflict.subject).Nodup := by
  have hzip : (arguments.zip (assignSlots definition.declaredInputs [] arguments)).map (·.1) =
      arguments := List.map_fst_zip (length_assignSlots arguments).ge
  have hidx : definition.declaredInputs.zipIdx.map (·.1) = definition.declaredInputs :=
    List.zipIdx_map_fst 0 _
  have harguments := nodup_arguments ha
  have hparameters := nodup_parameters node.id hp
  rw [← hzip, List.map_map] at harguments
  rw [← hidx, List.map_map] at hparameters
  rw [argumentConflicts, List.map_append, List.map_map, List.map_map, List.nodup_append]
  refine ⟨harguments.sublist (List.filter_sublist.map _),
    hparameters.sublist (List.filter_sublist.map _), fun first hf second hs => ?_⟩
  obtain ⟨_, _, rfl⟩ := List.mem_map.mp hf
  obtain ⟨_, _, rfl⟩ := List.mem_map.mp hs
  simp [Conflict.subject]

/-- The conflicts of a node are about different things, when its children are different nodes and
so are the parameters of what it calls. -/
theorem nodup_conflictsAt (hn : (node.children.map Node.id).Nodup)
    (hd : ∀ definition, globals.called? scope node = some definition →
      (definition.declaredInputs.map Node.id).Nodup) :
    ((globals.conflictsAt scope node).map Conflict.subject).Nodup := by
  unfold conflictsAt
  split
  next =>
    unfold structureConflicts
    split <;> simp
  next hk =>
    unfold evaluateConflicts
    split
    next definition hf =>
      have hcalled : globals.called? scope node = some definition := by simpa [called?, hk] using hf
      exact nodup_argumentConflicts
        (hn.sublist ((node.elements_sublist_children "inputs").map _)) (hd definition hcalled)
    next => simp
  next hk =>
    unfold binaryConflicts
    split
    next definition hf =>
      have hcalled : globals.called? scope node = some definition := by simpa [called?, hk] using hf
      have hinputs := hd definition hcalled
      split
      next => cases node.single? "right" <;> simp
      next first rest he =>
        rw [he, List.map_cons] at hinputs
        rw [List.map_map]
        exact nodup_parameters node.id
          ((List.nodup_cons.mp hinputs).2.sublist (List.filter_sublist.map _))
    next => simp
  next =>
    unfold borrowConflicts
    split
    next => split <;> simp
    next => simp
  next => simp

/-- The conflicts of two different nodes with different children are about different things. -/
theorem Finds.subject_ne {other : Node} {around : Scope} {conflict conflict' : Conflict}
    (hc : globals.Finds scope node conflict) (hd : globals.Finds around other conflict')
    (hid : node.id ≠ other.id)
    (hchildren : ∀ first ∈ node.children, ∀ second ∈ other.children, first.id ≠ second.id) :
    conflict.subject ≠ conflict'.subject := by
  cases hc with
  | disallowedInputs => cases hd <;> simp [Conflict.subject, hid]
  | missingInput => cases hd <;> simp [Conflict.subject, hid]
  | unknownBorrow => cases hd <;> simp [Conflict.subject, hid]
  | @unexpectedInput definition input _ hi =>
    cases hd with
    | @unexpectedInput definition' input' _ hi' =>
      have hne := hchildren input (node.passed_sublist_children.subset hi) input'
        (other.passed_sublist_children.subset hi')
      simpa [Conflict.subject] using hne
    | _ => simp [Conflict.subject]

end Globals

/-- An item of lists without repetition stands at one place of one list. -/
theorem place_unique {α : Type} {lists : List (List α)} (h : lists.flatten.Nodup)
    {first second : Nat × Nat} {item : α}
    (hf : (lists[first.1]?.getD [])[first.2]? = some item)
    (hs : (lists[second.1]?.getD [])[second.2]? = some item) : first = second := by
  obtain ⟨hnodup, hdisjoint⟩ := List.nodup_flatten.mp h
  have hapart : ∀ {a b : Nat × Nat}, (lists[a.1]?.getD [])[a.2]? = some item →
      (lists[b.1]?.getD [])[b.2]? = some item → ¬ a.1 < b.1 := by
    intro a b ha hb hlt
    cases hla : lists[a.1]? with
    | none => simp [hla] at ha
    | some la =>
      cases hlb : lists[b.1]? with
      | none => simp [hlb] at hb
      | some lb =>
        rw [hla, Option.getD_some] at ha
        rw [hlb, Option.getD_some] at hb
        obtain ⟨hba, rfl⟩ := List.getElem?_eq_some_iff.mp hla
        obtain ⟨hbb, rfl⟩ := List.getElem?_eq_some_iff.mp hlb
        have hd := List.pairwise_iff_getElem.mp hdisjoint a.1 b.1 hba hbb hlt
        exact hd (List.mem_of_getElem? ha) (List.mem_of_getElem? hb)
  have hlist : first.1 = second.1 := by
    have hle := hapart hf hs
    have hge := hapart hs hf
    omega
  cases hl : lists[first.1]? with
  | none => simp [hl] at hf
  | some items =>
    rw [← hlist, hl, Option.getD_some] at hs
    rw [hl, Option.getD_some] at hf
    have hb := (List.getElem?_eq_some_iff.mp hf).1
    have hposition := (List.getElem?_inj hb (hnodup items (List.mem_of_getElem? hl))).mp
      (hf.trans hs.symm)
    exact Prod.ext hlist hposition

namespace Program

variable {program : Program} {node : Node}

def places (program : Program) : List Occurrence :=
  program.sources.flatMap Node.occurrences

theorem map_node_places (program : Program) : program.places.map (·.node) = program.nodes := by
  rw [places, nodes, List.map_flatMap]
  exact List.flatMap_congr fun source _ => Node.map_node_occurrences source

theorem flatMap_sourceConflicts (program : Program) :
    program.sources.flatMap (Globals.ofProgram program).sourceConflicts =
      program.places.flatMap fun place =>
        (Globals.ofProgram program).conflictsAt (.around place.ancestors) place.node := by
  rw [places, List.flatMap_assoc]
  exact List.flatMap_congr fun source _ => Globals.sourceConflicts_eq_flatMap _ source

section Distinct

variable (h : (program.nodes.map Node.id).Nodup)

include h

theorem nodup_flatMap_children : (program.nodes.flatMap fun node =>
    node.children.map Node.id).Nodup := by
  have hperm : (program.nodes.flatMap Node.children).Perm
      (program.sources.flatMap fun source => source.children.flatMap Node.descendants) := by
    rw [nodes, List.flatMap_assoc]
    exact List.Perm.flatMap_left _ fun source _ => source.flatMap_children_perm
  have hsub : (program.sources.flatMap fun source =>
      source.children.flatMap Node.descendants).Sublist program.nodes := by
    refine .flatMap_right _ fun source _ => ?_
    rw [source.descendants_eq]
    exact List.sublist_cons_self _ _
  rw [← List.map_flatMap]
  exact (hperm.map Node.id).nodup_iff.mpr (h.sublist (hsub.map Node.id))

theorem nodup_children_of_mem (hn : node ∈ program.nodes) : (node.children.map Node.id).Nodup :=
  (List.nodup_flatMap.mp (nodup_flatMap_children h)).1 node hn

theorem pairwise_places : program.places.Pairwise fun first second =>
    first.node.id ≠ second.node.id ∧
      ∀ a ∈ first.node.children, ∀ b ∈ second.node.children, a.id ≠ b.id := by
  have hids : program.nodes.Pairwise fun first second => first.id ≠ second.id :=
    List.pairwise_map.mp h
  have hchildren := (List.nodup_flatMap.mp (nodup_flatMap_children h)).2
  rw [← map_node_places] at hids hchildren
  refine ((List.pairwise_map.mp hids).and (List.pairwise_map.mp hchildren)).imp ?_
  rintro first second ⟨hne, hdisjoint⟩
  refine ⟨hne, fun a ha b hb he => ?_⟩
  exact hdisjoint (List.mem_map.mpr ⟨a, ha, rfl⟩) (List.mem_map.mpr ⟨b, hb, he.symm⟩)

theorem nodup_subjects_of_nodes :
    ((program.sources.flatMap (Globals.ofProgram program).sourceConflicts).map
      Conflict.subject).Nodup := by
  rw [flatMap_sourceConflicts, List.map_flatMap, List.nodup_flatMap]
  constructor
  · intro place hm
    obtain ⟨source, hs, ho⟩ := List.mem_flatMap.mp hm
    have hn : place.node ∈ program.nodes :=
      mem_nodes.mpr ⟨source, hs, Node.mem_descendants_of_mem_occurrences ho⟩
    refine Globals.nodup_conflictsAt (nodup_children_of_mem h hn) fun definition hd => ?_
    have hdefinition := nodup_children_of_mem h (mem_nodes_of_called? hs ho hd).2
    exact hdefinition.sublist (definition.declaredInputs_sublist_children.map _)
  · refine (pairwise_places h).imp ?_
    rintro first second ⟨hid, hchildren⟩ subject hf hs
    obtain ⟨conflict, hc, rfl⟩ := List.mem_map.mp hf
    obtain ⟨conflict', hc', he⟩ := List.mem_map.mp hs
    exact (Globals.finds_of_mem_conflictsAt hc).subject_ne
      (Globals.finds_of_mem_conflictsAt hc') hid hchildren he.symm

/-- Each borrow makes one edge at most. -/
theorem nodup_edges : ((BorrowGraph.ofProgram program).edges.map fun edges =>
    edges.map (·.borrow.id)).flatten.Nodup := by
  have hedges : ((BorrowGraph.ofProgram program).edges.map fun edges =>
      edges.map (·.borrow.id)).flatten =
        (program.sources.flatMap fun source =>
          (BorrowGraph.edgesOf program source).map (·.borrow)).map Node.id := by
    simp [BorrowGraph.ofProgram, List.flatMap_def, List.map_flatten, Function.comp_def]
  have hsub : (program.sources.flatMap fun source =>
      (BorrowGraph.edgesOf program source).map (·.borrow)).Sublist program.nodes := by
    refine .flatMap_right _ fun source _ => ?_
    rw [map_borrow_edgesOf]
    exact List.filter_sublist.trans
      (source.borrows_sublist_children.trans source.children_sublist_descendants)
  rw [hedges]
  exact h.sublist (hsub.map Node.id)

theorem nodup_subjects_of_borrowCycles : (program.borrowCycles.map Conflict.subject).Nodup := by
  have hplaces := BorrowGraph.closingPlaces_nodup (BorrowGraph.inRange_ofProgram program)
  have hedge : ∀ {place : Nat × Nat} {edge : BorrowEdge},
      (BorrowGraph.ofProgram program).edgeAt place = some edge →
        ((((BorrowGraph.ofProgram program).edges.map fun edges =>
          edges.map (·.borrow.id))[place.1]?.getD [])[place.2]?) = some edge.borrow.id := by
    intro place edge he
    unfold BorrowGraph.edgeAt BorrowGraph.edgesFrom at he
    rw [List.getElem?_map]
    cases hl : (BorrowGraph.ofProgram program).edges[place.1]? with
    | none => simp [hl] at he
    | some edges =>
      rw [hl, Option.getD_some] at he
      simp [he]
  rw [borrowCycles, BorrowGraph.cycleConflicts, List.map_map, List.nodup_iff_pairwise_ne,
    List.pairwise_map]
  refine (List.pairwise_filterMap.mp hplaces).imp_of_mem fun {first second} hf hs hne he => ?_
  obtain ⟨-, place, -, hp, hplace, -⟩ :=
    BorrowGraph.getLast?_circleSources (BorrowGraph.mem_closedCycles_sound hf)
  obtain ⟨-, other, -, ho, hother, -⟩ :=
    BorrowGraph.getLast?_circleSources (BorrowGraph.mem_closedCycles_sound hs)
  have hid : first.edge.borrow.id = second.edge.borrow.id := Subject.closingBorrow.inj he
  exact hne place hp other ho (place_unique (nodup_edges h) (hedge hplace) (hid ▸ hedge hother))

end Distinct

end Program

end ProgramTree
