import ProgramTree.Proofs.Executable
import ProgramTree.Proofs.Identity
import ProgramTree.Proofs.RelabelledPrograms

namespace ProgramTree

/-- Nodes of a history that fit the grammar. -/
def Made (nodes : List Node) (node : Node) : Prop :=
  node ∈ nodes ∧ node.WellFormed

theorem beq_of_map_erase_eq {first second : List Node}
    (h : first.map Node.erase = second.map Node.erase) : (first == second) = true := by
  induction first generalizing second with
  | nil =>
    cases second with
    | nil => rfl
    | cons => simp at h
  | cons node rest ih =>
    cases second with
    | nil => simp at h
    | cons other others =>
      obtain ⟨hnode, hrest⟩ := List.cons.inj h
      have hequal : (node == other) = true := Node.equal_of_erase_eq hnode
      rw [List.cons_beq_cons, hequal, ih hrest, Bool.and_self]

/-- Conflicts between nodes that differ in numbers only are equal. -/
theorem Conflict.equal_of_map_erase_eq {a b : Conflict}
    (h : a.map Node.erase = b.map Node.erase) : a.equal b = true := by
  have hnode : ∀ {first second : Node}, first.erase = second.erase → (first == second) = true :=
    Node.equal_of_erase_eq
  cases a with
  | borrowCycle =>
    cases b with
    | borrowCycle =>
      obtain ⟨hborrow, hclosing, hcycle⟩ := borrowCycle.inj h
      simp [equal, hnode hborrow, hnode hclosing, beq_of_map_erase_eq hcycle]
    | _ => cases h
  | disallowedInputs =>
    cases b with
    | disallowedInputs => exact hnode (disallowedInputs.inj h)
    | _ => cases h
  | unexpectedInput =>
    cases b with
    | unexpectedInput =>
      obtain ⟨hdefinition, hevaluate, hinput⟩ := unexpectedInput.inj h
      simp [equal, hnode hdefinition, hnode hevaluate, hnode hinput]
    | _ => cases h
  | missingInput =>
    cases b with
    | missingInput =>
      obtain ⟨hdefinition, hevaluate, hinput⟩ := missingInput.inj h
      simp [equal, hnode hdefinition, hnode hevaluate, hnode hinput]
    | _ => cases h
  | unknownBorrow =>
    cases b with
    | unknownBorrow => exact hnode (unknownBorrow.inj h)
    | _ => cases h

namespace Program

variable {nodes : List Node} {next : Nat} {p q : Program}

theorem Keyed.mem_nodes (hp : Keyed (Made nodes) p) {source : Node} (hs : source ∈ p.sources) :
    source ∈ nodes :=
  (hp.mem_sources hs).1.1

theorem Keyed.wellFormed (hp : Keyed (Made nodes) p) :
    ∀ source ∈ p.sources, source.WellFormed :=
  fun _ hs => (hp.mem_sources hs).1.2

theorem sources_erasing (p : Program) : (p.relabel .erasing).sources = p.sources.map Node.erase := by
  have hf : (fun node : Node => node.relabel .erasing) = Node.erase := funext Node.relabel_erasing
  rw [sources_relabel, hf]

theorem Reachable.erasing (hp : p.Reachable Node.WellFormed) :
    (p.relabel .erasing).Keyed Node.WellFormed :=
  (hp.relabel Function.injective_id).keyed

/-- Without numbers a program is given by its sources. -/
theorem relabel_erasing_eq_of_sources (hp : p.Reachable Node.WellFormed)
    (hq : q.Reachable Node.WellFormed) (h : p.sources.map Node.erase = q.sources.map Node.erase) :
    p.relabel .erasing = q.relabel .erasing :=
  hp.erasing.ext hq.erasing (by rw [sources_erasing, sources_erasing, h])

theorem Reachable.map_erase_conflicts (hp : p.Reachable Node.WellFormed) :
    (p.relabel .erasing).analyze.conflicts = p.analyze.conflicts.map (.map Node.erase) := by
  have hf : (fun node : Node => node.relabel .erasing) = Node.erase := funext Node.relabel_erasing
  have hnames : Function.Injective Relabelling.erasing.name := Function.injective_id
  have hconflicts := conflicts_analyze_relabel hnames fun _ hs => (hp.keyed.mem_sources hs).1
  rwa [hf] at hconflicts

theorem Reachable.wellFormed (hp : p.Reachable (Made nodes)) : p.Reachable Node.WellFormed :=
  hp.mono fun _ hm => hm.2

/-- The program without numbers is a program. -/
theorem Reachable.keyed_erasing (hp : p.Reachable (Made nodes)) :
    (p.relabel .erasing).Keyed Node.WellFormed :=
  hp.wellFormed.erasing

theorem conflicts_analyze_erasing (hp : p.Reachable (Made nodes)) :
    (p.relabel .erasing).analyze.conflicts = p.analyze.conflicts.map (.map Node.erase) :=
  hp.wellFormed.map_erase_conflicts

theorem isExecutable_analyze_erasing (hp : p.Reachable (Made nodes)) :
    (p.relabel .erasing).analyze.isExecutable = p.analyze.isExecutable := by
  rw [Bool.eq_iff_iff, Findings.isExecutable_iff, Findings.isExecutable_iff,
    conflicts_analyze_erasing hp, List.map_eq_nil_iff]

theorem relabel_erasing_eq_of_equal (history : History next nodes)
    (hp : p.Reachable (Made nodes)) (hq : q.Reachable (Made nodes))
    (he : List.Forall₂ (fun a b : Node => (a == b) = true) p.sources q.sources) :
    p.relabel .erasing = q.relabel .erasing := by
  refine relabel_erasing_eq_of_sources hp.wellFormed hq.wellFormed ?_
  have hsame : List.Forall₂ (fun a b : Node => a.erase = b.erase) p.sources q.sources := by
    refine List.forall₂_iff_zip.mpr ⟨he.length_eq, fun {a b} hm => ?_⟩
    obtain ⟨ha, hb⟩ := List.of_mem_zip hm
    have hequal : a.equal b = true := List.forall₂_iff_zip.mp he |>.2 hm
    exact (history.equal_iff_erase_eq (hp.keyed.mem_nodes ha) (hq.keyed.mem_nodes hb)).mp hequal
  have hmap : List.Forall₂ (· = ·) (p.sources.map Node.erase) (q.sources.map Node.erase) :=
    List.forall₂_map_left_iff.mpr (List.forall₂_map_right_iff.mpr hsame)
  rwa [List.forall₂_eq_eq_eq] at hmap

/-- Programs of equal sources in the same order get equal conflicts in the same order, whatever
numbers their nodes carry, and wherever one node stands at several places. -/
theorem analysis_of_equal_sources (history : History next nodes) (hp : p.Reachable (Made nodes))
    (hq : q.Reachable (Made nodes))
    (he : List.Forall₂ (fun a b : Node => (a == b) = true) p.sources q.sources) :
    List.Forall₂ (fun c d : Conflict => (c == d) = true)
        p.analyze.conflicts q.analyze.conflicts ∧
      p.analyze.isExecutable = q.analyze.isExecutable := by
  have hsame := relabel_erasing_eq_of_equal history hp hq he
  constructor
  · have hconflicts : List.Forall₂ (· = ·) (p.analyze.conflicts.map (Conflict.map Node.erase))
        (q.analyze.conflicts.map (Conflict.map Node.erase)) := by
      rw [List.forall₂_eq_eq_eq, ← conflicts_analyze_erasing hp, ← conflicts_analyze_erasing hq,
        hsame]
    have hpairs := List.forall₂_map_right_iff.mp (List.forall₂_map_left_iff.mp hconflicts)
    exact hpairs.imp fun _ _ => Conflict.equal_of_map_erase_eq
  · rw [← isExecutable_analyze_erasing hp, ← isExecutable_analyze_erasing hq, hsame]

/-- The sources of `sharing` once more, made of nodes of which none stands at two places. -/
def parting : Program :=
  ⟨[("a", sourceOf 17 "a" [borrowOf 14 "b"]),
    ("b", sourceOf 27 "b" [borrowOf 21 "b", borrowOf 24 "a"])]⟩

def partingNodes : List Node :=
  sourceOf 27 "b" [borrowOf 21 "b", borrowOf 24 "a"] ::
  .tree 29 .block
    [("open", .optional none), ("statements", .list []), ("close", .optional none)] ::
  .tree 28 .names [("names", .list [.token 27 .name "b"])] :: .token 27 .name "b" ::
  borrowOf 24 "a" :: .token 25 .name "a" :: .token 24 .borrow "↓" ::
  borrowOf 21 "b" :: .token 22 .name "b" :: .token 21 .borrow "↓" ::
  sourceOf 17 "a" [borrowOf 14 "b"] ::
  .tree 19 .block
    [("open", .optional none), ("statements", .list []), ("close", .optional none)] ::
  .tree 18 .names [("names", .list [.token 17 .name "a"])] :: .token 17 .name "a" ::
  borrowOf 14 "b" :: .token 15 .name "b" :: .token 14 .borrow "↓" :: sharingNodes

theorem history_partingNodes : History 31 partingNodes := by
  unfold partingNodes
  iterate 17
    refine .construct ?_ rfl
      (by simp [Node.children, Node.fields, Field.nodes, borrowOf, sourceOf])
  exact history_sharingNodes

theorem made_parting : ∀ source ∈ sharing.sources ++ parting.sources, Made partingNodes source := by
  intro source hs
  have hcases : source = sourceOf 6 "a" [borrowOf 0 "b"] ∨
      source = sourceOf 10 "b" [borrowOf 0 "b", borrowOf 3 "a"] ∨
      source = sourceOf 17 "a" [borrowOf 14 "b"] ∨
      source = sourceOf 27 "b" [borrowOf 21 "b", borrowOf 24 "a"] := by
    simpa [sources, sharing, parting] using hs
  rcases hcases with rfl | rfl | rfl | rfl
  all_goals exact ⟨by simp [partingNodes, sharingNodes], by decide +kernel⟩

theorem analysis_of_equal_sources_parting :
    History 31 partingNodes ∧ sharing.Reachable (Made partingNodes) ∧
      parting.Reachable (Made partingNodes) ∧
      List.Forall₂ (fun c d : Conflict => (c == d) = true)
        sharing.analyze.conflicts parting.analyze.conflicts := by
  have hsharing : ofSources sharing.sources = .ok sharing := rfl
  have hparting : ofSources parting.sources = .ok parting := rfl
  have hp : sharing.Reachable (Made partingNodes) :=
    .ofSources (fun source hs => made_parting source (List.mem_append_left _ hs)) hsharing
  have hq : parting.Reachable (Made partingNodes) :=
    .ofSources (fun source hs => made_parting source (List.mem_append_right _ hs)) hparting
  have he : List.Forall₂ (fun a b : Node => (a == b) = true) sharing.sources parting.sources :=
    .cons (by decide +kernel) (.cons (by decide +kernel) .nil)
  exact ⟨history_partingNodes, hp, hq, (analysis_of_equal_sources history_partingNodes hp hq he).1⟩

end Program

end ProgramTree
