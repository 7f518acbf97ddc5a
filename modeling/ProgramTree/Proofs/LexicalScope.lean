import Mathlib.Data.List.Forall2
import ProgramTree.Scope
import ProgramTree.Proofs.Occurrences

namespace ProgramTree

namespace Node

/-- Definitions and blocks bind names over their children. -/
def opensFrame (node : Node) : Bool :=
  node.kind.isDefinition || node.kind == .block

/-- What a node binds a name to over its children: a definition binds the names of its parameters
to values, a block each name to the first definition or bound value that declares it. -/
def binding? (node : Node) (name : String) : Option Binding :=
  if node.kind.isDefinition then
    (node.declaredInputs.find? (·.declares name)).map fun _ => .value
  else
    (node.statements.find? fun statement =>
      (statement.kind.isDefinition || statement.kind == .bind) && statement.declares name).map
    fun statement => if statement.kind.isDefinition then .definition statement else .value

theorem isSome_frame? (node : Node) : node.frame?.isSome = node.opensFrame := by
  unfold frame? opensFrame
  split
  next hd => simp [hd]
  next hd =>
    split
    next hb => simp [hb]
    next hb => simp [hd, hb]

theorem statementBinding?_eq (statement : Node) :
    statement.statementBinding? =
      if statement.kind.isDefinition || statement.kind == .bind then
        some (if statement.kind.isDefinition then .definition statement else .value)
      else none := by
  unfold statementBinding?
  cases statement.kind.isDefinition <;> simp

theorem isSome_statementBinding? (statement : Node) :
    statement.statementBinding?.isSome =
      (statement.kind.isDefinition || statement.kind == .bind) := by
  rw [statementBinding?_eq]
  cases statement.kind.isDefinition || statement.kind == .bind <;> rfl

theorem get?_of_frame? {node : Node} {frame : NameTable Binding} (h : node.frame? = some frame)
    (name : String) : frame.get? name = node.binding? name := by
  unfold frame? at h
  unfold binding?
  split at h
  next hd =>
    cases h
    rw [if_pos hd]
    refine (NameTable.get?_foldl_bindAll? declaredNames (fun _ => some Binding.value)
      node.declaredInputs .empty name).trans ?_
    rw [NameTable.get?_empty, Option.none_or, Option.map_eq_bind]
    rfl
  next hd =>
    split at h
    next =>
      cases h
      have hdeclares : ∀ statement : Node,
          statement.declaredNames.contains name = statement.declares name := fun _ => rfl
      rw [if_neg hd, NameTable.get?_foldl_bindAll? declaredNames statementBinding?]
      simp only [NameTable.get?_empty, Option.none_or, isSome_statementBinding?, hdeclares]
      cases hf : node.statements.find? fun statement =>
          (statement.kind.isDefinition || statement.kind == .bind) && statement.declares name with
      | none => rfl
      | some statement =>
        have hp := List.find?_some hf
        rw [Bool.and_eq_true] at hp
        rw [Option.bind_some, statementBinding?_eq, if_pos hp.1]
        rfl
    next => cases h

theorem binding?_of_not_opensFrame {node : Node} (h : node.opensFrame = false) (name : String) :
    node.binding? name = none := by
  simp only [opensFrame, Bool.or_eq_false_iff, beq_eq_false_iff_ne] at h
  simp [binding?, statements, h.1, h.2]

end Node

namespace Scope

def around (ancestors : List Node) : Scope :=
  (ancestors.filterMap Node.frame?).reverse

theorem around_nil : around [] = [] := rfl

theorem around_cons (parent : Node) (ancestors : List Node) :
    around (parent :: ancestors) = around ancestors ++ parent.frame?.toList := by
  unfold around
  cases h : parent.frame? <;> simp [h]

/-- A scope holds exactly one frame for each definition and block of a chain, the first outermost,
and a name has the binding of the innermost node of the chain that binds it. -/
structure Lexical (scope : Scope) (ancestors : List Node) : Prop where
  frames : List.Forall₂ (fun ancestor frame => ∀ name, frame.get? name = ancestor.binding? name)
    (ancestors.filter (·.opensFrame)) scope.reverse
  depth : scope.depth = (ancestors.filter (·.opensFrame)).length
  lookup : ∀ name, scope.lookup name = ancestors.reverse.findSome? (·.binding? name)

theorem frames_around (ancestors : List Node) :
    List.Forall₂ (fun ancestor frame => ∀ name, frame.get? name = ancestor.binding? name)
      (ancestors.filter (·.opensFrame)) (around ancestors).reverse := by
  rw [around, List.reverse_reverse]
  induction ancestors with
  | nil => exact .nil
  | cons ancestor rest ih =>
    cases hf : ancestor.frame? with
    | none =>
      have ho : ancestor.opensFrame = false := by simp [← Node.isSome_frame?, hf]
      simpa [hf, ho] using ih
    | some frame =>
      have ho : ancestor.opensFrame = true := by simp [← Node.isSome_frame?, hf]
      simpa [hf, ho] using ⟨Node.get?_of_frame? hf, ih⟩

theorem lookup_around (ancestors : List Node) (name : String) :
    (around ancestors).lookup name = ancestors.reverse.findSome? (·.binding? name) := by
  induction ancestors with
  | nil => rfl
  | cons ancestor rest ih =>
    rw [around_cons, lookup, List.findSome?_append, ← lookup, ih, List.reverse_cons,
      List.findSome?_append]
    congr 1
    cases hf : ancestor.frame? with
    | none =>
      have ho : ancestor.opensFrame = false := by simp [← Node.isSome_frame?, hf]
      simp [Node.binding?_of_not_opensFrame ho]
    | some frame => simp [Node.get?_of_frame? hf]

/-- A name has the binding of a node when no node further inside binds the name. -/
theorem lookup_around_eq_some_iff {ancestors : List Node} {name : String} {binding : Binding} :
    (around ancestors).lookup name = some binding ↔
      ∃ outer binder inner, ancestors = outer ++ binder :: inner ∧
        binder.binding? name = some binding ∧ ∀ node ∈ inner, node.binding? name = none := by
  rw [lookup_around, List.findSome?_eq_some_iff]
  constructor
  · rintro ⟨inner, binder, outer, ha, hb, hi⟩
    refine ⟨outer.reverse, binder, inner.reverse, ?_, hb, ?_⟩
    · simpa using congrArg List.reverse ha
    · exact fun node hn => hi node (List.mem_reverse.mp hn)
  · rintro ⟨outer, binder, inner, rfl, hb, hi⟩
    refine ⟨inner.reverse, binder, outer.reverse, by simp, hb, ?_⟩
    exact fun node hn => hi node (List.mem_reverse.mp hn)

theorem lookup_around_eq_none_iff {ancestors : List Node} {name : String} :
    (around ancestors).lookup name = none ↔ ∀ node ∈ ancestors, node.binding? name = none := by
  simp [lookup_around]

theorem lexical_around (ancestors : List Node) : (around ancestors).Lexical ancestors where
  frames := frames_around ancestors
  depth := by simpa [depth] using (frames_around ancestors).length_eq.symm
  lookup := lookup_around ancestors

end Scope

namespace Node

/-- The places of a tree with the scopes around them, when the root itself stands in a scope. -/
def scopedWithin (scope : Scope) (root : Node) : List (Node × Scope) :=
  root.occurrences.map fun occurrence =>
    (occurrence.node, Scope.around occurrence.ancestors ++ scope)

/-- The recursive walk: the children of a node stand in its scope extended by its own frame. -/
theorem scopedWithin_eq (scope : Scope) (root : Node) :
    root.scopedWithin scope =
      (root, scope) :: root.children.flatMap (scopedWithin (root.frame?.toList ++ scope)) := by
  rw [scopedWithin, occurrences_eq, List.map_cons, List.map_flatMap, ← map_snd_branches,
    List.flatMap_map]
  simp [scopedWithin, Occurrence.below, Scope.around_nil, Scope.around_cons, Function.comp_def]

/-- Taking the turn of a node visits its whole tree and leaves the frames as they were. -/
theorem scopedStack_enter (root : Node) (seen : Array (Node × Scope)) (scope : Scope)
    (rest : List ScopeTurn) :
    scopedStack seen scope (.enter root :: rest) =
      scopedStack (seen ++ root.scopedWithin scope) scope rest := by
  induction root using induction_children generalizing seen scope rest with
  | step root ih =>
    have hc : ∀ nodes : List Node, (∀ node ∈ nodes, node ∈ root.children) → ∀ seen scope rest,
        scopedStack seen scope (nodes.map .enter ++ rest) =
          scopedStack (seen ++ nodes.flatMap (scopedWithin scope)) scope rest := by
      intro nodes
      induction nodes with
      | nil => simp
      | cons node nodes ih' =>
        intro hn seen scope rest
        rw [List.map_cons, List.cons_append, ih node (hn node List.mem_cons_self),
          ih' fun other ho => hn other (List.mem_cons_of_mem _ ho)]
        congr 1
        exact Array.ext' (by simp)
    rw [scopedStack, scopedWithin_eq]
    cases hf : root.frame? with
    | none =>
      simp [hc root.children fun _ h => h]
    | some frame =>
      simp [hc root.children fun _ h => h, scopedStack]

theorem scopedNodes_eq (root : Node) :
    root.scopedNodes =
      root.occurrences.map fun occurrence =>
        (occurrence.node, Scope.around occurrence.ancestors) := by
  rw [scopedNodes, scopedStack_enter, scopedStack]
  simp [scopedWithin]

/-- The scoped walk visits the places of a tree in pre-order, and the scope of a place holds the
frames of the nodes on the path above it, and no others. -/
theorem scopedNodes_lexical (root : Node) :
    root.scopedNodes.map (·.1) = root.descendants ∧
    root.occurrences.map (·.node) = root.descendants ∧
    List.Forall₂ (fun visited occurrence =>
        visited.1 = occurrence.node ∧ visited.2.Lexical occurrence.ancestors)
      root.scopedNodes root.occurrences ∧
    ∀ occurrence ∈ root.occurrences,
      occurrence.ancestors.length = occurrence.path.length ∧
      (root.WellFormed → ∀ depth ≤ occurrence.path.length,
        root.nodeAt? (occurrence.path.take depth) =
          (occurrence.ancestors ++ [occurrence.node])[depth]?) := by
  refine ⟨?_, map_node_occurrences root, ?_, fun occurrence ho => ?_⟩
  · rw [scopedNodes_eq, List.map_map]
    exact map_node_occurrences root
  · rw [scopedNodes_eq, List.forall₂_map_left_iff, List.forall₂_same]
    exact fun occurrence _ => ⟨rfl, Scope.lexical_around occurrence.ancestors⟩
  · exact ⟨length_ancestors ho, fun h depth hd => h.nodeAt?_take ho hd⟩

/-- A function `f(x)` over a block that defines a function `x` and refers to `x`. -/
def shadowedParameter : Node :=
  .tree 23 .functionDefinition
    [("docs", .optional none),
     ("fun", .one (.token 0 .function "ƒ")),
     ("names", .one (.tree 2 .names [("names", .list [.token 1 .name "f"])])),
     ("open", .one (.token 3 .evalOpen "(")),
     ("inputs", .list [.tree 7 .bind
       [("names", .one (.tree 5 .names [("names", .list [.token 4 .name "x"])])),
        ("colon", .optional none), ("value", .optional none)]]),
     ("close", .one (.token 6 .evalClose ")")),
     ("expression", .optional (some (.tree 22 .block
       [("open", .optional none),
        ("statements", .list
          [.tree 13 .functionDefinition
            [("docs", .optional none),
             ("fun", .one (.token 8 .function "ƒ")),
             ("names", .one (.tree 10 .names [("names", .list [.token 9 .name "x"])])),
             ("open", .one (.token 11 .evalOpen "(")),
             ("inputs", .list []),
             ("close", .one (.token 12 .evalClose ")")),
             ("expression", .optional none)],
           .tree 21 .reference [("name", .one (.token 20 .name "x"))]]),
        ("close", .optional none)])))]

theorem scopedNodes_lexical_shadowedParameter :
    shadowedParameter.WellFormed ∧
    ∀ occurrence ∈ shadowedParameter.occurrences,
      ∀ depth ≤ occurrence.path.length,
        shadowedParameter.nodeAt? (occurrence.path.take depth) =
          (occurrence.ancestors ++ [occurrence.node])[depth]? :=
  ⟨by decide +kernel, fun occurrence ho =>
    ((scopedNodes_lexical shadowedParameter).2.2.2 occurrence ho).2 (by decide +kernel)⟩

end Node

end ProgramTree
