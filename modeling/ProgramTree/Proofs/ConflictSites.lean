import ProgramTree.Proofs.Documentation
import ProgramTree.Proofs.Provenance
import ProgramTree.Proofs.ReportedCircles

namespace ProgramTree

namespace Kind

variable {kind : Kind}

theorem isEvaluated_of_not_isProse (h : kind.isProse = false) :
    kind.purpose.isEvaluated = true := by
  revert h
  cases kind <;> decide

theorem isEvaluated_of_isExpression (h : kind.isExpression = true) :
    kind.purpose.isEvaluated = true := by
  revert h
  cases kind <;> decide

theorem not_isProse_of_isDefinition (h : kind.isDefinition = true) : kind.isProse = false := by
  revert h
  cases kind <;> decide

end Kind

namespace Node

variable {root node child : Node}

theorem mem_evaluatedNodes :
    node ∈ root.evaluatedNodes ↔ root.purpose.isEvaluated = true ∧
      (node = root ∨ ∃ child ∈ root.children, node ∈ child.evaluatedNodes) := by
  rw [evaluatedNodes_eq]
  split
  next he => simp [he]
  next he => simp [he]

theorem mem_evaluatedNodes_of_mem_children (hn : node ∈ root.evaluatedNodes)
    (hc : child ∈ node.children) (he : child.purpose.isEvaluated = true) :
    child ∈ root.evaluatedNodes := by
  induction root using induction_children with
  | step root ih =>
    obtain ⟨hr, rfl | ⟨inner, hi, hn⟩⟩ := mem_evaluatedNodes.mp hn
    · have hself : child ∈ child.evaluatedNodes := mem_evaluatedNodes.mpr ⟨he, Or.inl rfl⟩
      exact mem_evaluatedNodes.mpr ⟨hr, Or.inr ⟨child, hc, hself⟩⟩
    · exact mem_evaluatedNodes.mpr ⟨hr, Or.inr ⟨inner, hi, ih inner hi hn⟩⟩

theorem mem_descendants_of_mem_evaluatedNodes (h : node ∈ root.evaluatedNodes) :
    node ∈ root.descendants := by
  induction root using induction_children with
  | step root ih =>
    obtain ⟨-, rfl | ⟨child, hc, hn⟩⟩ := mem_evaluatedNodes.mp h
    · exact mem_descendants_self node
    · exact mem_descendants.mpr (Or.inr ⟨child, hc, ih child hc hn⟩)

namespace WellFormed

theorem not_isProse_of_mem_descendants (h : root.WellFormed) (hn : node ∈ root.descendants)
    (hk : node.kind.isProse = false) : root.kind.isProse = false := by
  induction root using induction_children with
  | step root ih =>
    rcases mem_descendants.mp hn with rfl | ⟨child, hc, hn⟩
    · exact hk
    · have hchild := ih child hc (h.of_mem_children hc) hn
      by_contra hp
      simp [h.isProse_of_mem_children (by simpa using hp) hc] at hchild

/-- A node that no documentation is made of stands in no documentation. -/
theorem mem_evaluatedNodes (h : root.WellFormed) (hn : node ∈ root.descendants)
    (hk : node.kind.isProse = false) : node ∈ root.evaluatedNodes := by
  induction root using induction_children with
  | step root ih =>
    have hroot := h.not_isProse_of_mem_descendants hn hk
    refine Node.mem_evaluatedNodes.mpr ⟨Kind.isEvaluated_of_not_isProse hroot, ?_⟩
    rcases mem_descendants.mp hn with he | ⟨child, hc, hn⟩
    · exact Or.inl he
    · exact Or.inr ⟨child, hc, ih child hc (h.of_mem_children hc) hn⟩

theorem isEvaluated_of_mem_passed (h : node.WellFormed) (hc : child ∈ node.passed)
    (hk : node.kind = .evaluate ∨ node.kind = .binaryEvaluate) :
    child.purpose.isEvaluated = true := by
  rcases hk with hk | hk
  · have hr : FieldRule.list "inputs" [.expression, .kind .input] ∈ node.kind.grammar := by
      rw [hk]
      decide
    have he : child ∈ node.elements "inputs" := by simpa [passed, hk] using hc
    obtain ⟨permit, hp, ha⟩ := h.admitted_of_mem_elements hr he
    rcases List.mem_pair.mp hp with rfl | rfl
    · exact Kind.isEvaluated_of_isExpression ha
    · have hinput : child.kind = .input := beq_iff_eq.mp ha
      rw [purpose, hinput]
      rfl
  · obtain ⟨right, hs, -, ha⟩ := h.exists_single?_of_kind hk "right" .expression (by decide)
    have he : child = right := by simpa [passed, hk, hs] using hc
    subst he
    exact Kind.isEvaluated_of_isExpression ha

theorem isEvaluated_of_namesNode? (h : node.WellFormed) (hd : node.kind.isDefinition = true)
    (hc : node.namesNode? = some child) : child.purpose.isEvaluated = true := by
  obtain ⟨names, hs, -, ha⟩ := h.exists_single? (Kind.grammar_of_isDefinition hd).1
  have he : names = child := by
    unfold namesNode? at hc
    split at hc <;> first | exact Option.some.inj (hs.symm.trans hc) | cases hc
  have hnames : child.kind = .names := he ▸ beq_iff_eq.mp ha
  rw [purpose, hnames]
  rfl

end WellFormed

end Node

theorem Globals.kind_of_called? {globals : Globals} {scope : Scope} {node definition : Node}
    (h : globals.called? scope node = some definition) :
    node.kind = .evaluate ∨ node.kind = .binaryEvaluate := by
  unfold called? at h
  split at h
  next hk => exact Or.inl hk
  next hk => exact Or.inr hk
  next => cases h

/-- The first site of a conflict is its primary node, and the others are shown beside it. -/
theorem Conflict.sites_eq_cons (conflict : Conflict) :
    ∃ first rest, conflict.sites = first :: rest ∧ first.template.role = .primary ∧
      first.node = conflict.primary ∧ ∀ site ∈ rest, site.template.role = .secondary := by
  cases conflict with
  | borrowCycle borrow closing cycle =>
    refine ⟨_, _, rfl, rfl, rfl, fun site hs => ?_⟩
    split at hs
    next => simp at hs
    next =>
      cases List.mem_singleton.mp hs
      rfl
  | unexpectedInput definition evaluate input =>
    refine ⟨_, _, rfl, rfl, rfl, fun site hs => ?_⟩
    obtain ⟨names, -, rfl⟩ := List.mem_map.mp hs
    rfl
  | missingInput definition evaluate input =>
    refine ⟨_, _, rfl, rfl, rfl, fun site hs => ?_⟩
    cases List.mem_singleton.mp hs
    rfl
  | disallowedInputs | unknownBorrow => exact ⟨_, _, rfl, rfl, rfl, by simp⟩

namespace Program

variable {program : Program} {source node child : Node} {conflict : Conflict}

/-- A node stands in a source outside of all documentation. -/
def Evaluates (program : Program) (node : Node) : Prop :=
  ∃ source ∈ program.sources, node ∈ source.evaluatedNodes

theorem Evaluates.of_mem_children (h : program.Evaluates node) (hc : child ∈ node.children)
    (he : child.purpose.isEvaluated = true) : program.Evaluates child := by
  obtain ⟨source, hs, hn⟩ := h
  exact ⟨source, hs, Node.mem_evaluatedNodes_of_mem_children hn hc he⟩

theorem mem_borrows_of_edgeAt {place : Nat × Nat} {edge : BorrowEdge}
    (h : (BorrowGraph.ofProgram program).edgeAt place = some edge) :
    ∃ source ∈ program.sources, edge.borrow ∈ source.borrows := by
  obtain ⟨source, _, hs, hb, _, _⟩ :=
    BorrowGraph.mem_edgesFrom_ofProgram.mp (List.mem_of_getElem? h)
  exact ⟨source, List.mem_of_getElem? hs, hb⟩

/-- The borrows that a circle is reported on are borrows of sources of the program. -/
theorem exists_borrows_of_mem_borrowCycles (h : conflict ∈ program.borrowCycles) :
    ∃ borrow closing cycle, conflict = .borrowCycle borrow closing cycle ∧
      (∃ source ∈ program.sources, borrow ∈ source.borrows) ∧
      ∃ source ∈ program.sources, closing ∈ source.borrows := by
  obtain ⟨closed, hm, rfl⟩ := List.mem_map.mp h
  have hs := BorrowGraph.mem_closedCycles_sound hm
  obtain ⟨last, position, _, _, he⟩ := hs.last
  refine ⟨_, _, _, rfl, ?_, mem_borrows_of_edgeAt he⟩
  have hl := hs.linked
  match hc : closed.circle with
  | [] | [_] => simpa using mem_borrows_of_edgeAt he
  | outer :: inner :: rest =>
    rw [hc] at hl
    obtain ⟨position, edge, _, hedge, _, hvia⟩ := (List.isChain_cons_cons.mp hl).1
    simpa [hvia] using mem_borrows_of_edgeAt hedge

section Reachable

variable (hp : program.Reachable Node.WellFormed)

include hp

theorem wellFormed_of_mem_nodes (hn : node ∈ program.nodes) : node.WellFormed := by
  obtain ⟨source, hs, hn⟩ := mem_nodes.mp hn
  exact (hp.keyed.mem_sources hs).1.of_mem_descendants hn

theorem evaluates_of_mem_nodes (hn : node ∈ program.nodes) (hk : node.kind.isProse = false) :
    program.Evaluates node := by
  obtain ⟨source, hs, hn⟩ := mem_nodes.mp hn
  exact ⟨source, hs, (hp.keyed.mem_sources hs).1.mem_evaluatedNodes hn hk⟩

theorem evaluates_of_mem_borrows (hs : source ∈ program.sources) (hb : node ∈ source.borrows) :
    program.Evaluates node := by
  obtain ⟨hw, hk, -⟩ := hp.keyed.mem_sources hs
  obtain ⟨hn, hkind⟩ := (hw.mem_borrows_iff hk).mp hb
  exact ⟨source, hs, hw.mem_evaluatedNodes hn (by rw [hkind]; rfl)⟩

/-- The sites of a conflict that a place has stand outside of all documentation: those at the place
and those at the definition that is called from it. -/
theorem evaluates_of_finds {occurrence : Occurrence} (hs : source ∈ program.sources)
    (ho : occurrence ∈ source.occurrences)
    (hf : (Globals.ofProgram program).Finds (.around occurrence.ancestors) occurrence.node
      conflict) : ∀ site ∈ conflict.sites, program.Evaluates site.node := by
  have hn : occurrence.node ∈ program.nodes :=
    mem_nodes.mpr ⟨source, hs, Node.mem_descendants_of_mem_occurrences ho⟩
  have hself : occurrence.node.kind.isProse = false → program.Evaluates occurrence.node :=
    evaluates_of_mem_nodes hp hn
  intro site hm
  cases hf with
  | disallowedInputs hk | unknownBorrow hk =>
    cases List.mem_singleton.mp hm
    exact hself (by rw [hk]; rfl)
  | @unexpectedInput definition input hd hi =>
    have hkind := Globals.kind_of_called? hd
    have hcall : program.Evaluates occurrence.node :=
      hself (by rcases hkind with hk | hk <;> rw [hk] <;> rfl)
    obtain ⟨hdefinition, hdn⟩ := mem_nodes_of_called? hs ho hd
    rcases List.mem_cons.mp hm with rfl | hm
    · exact hcall.of_mem_children (occurrence.node.passed_sublist_children.subset hi)
        ((wellFormed_of_mem_nodes hp hn).isEvaluated_of_mem_passed hi hkind)
    · obtain ⟨names, hnames, rfl⟩ := List.mem_map.mp hm
      have hnames := Option.mem_toList.mp hnames
      have hcallee := evaluates_of_mem_nodes hp hdn (Kind.not_isProse_of_isDefinition hdefinition)
      exact hcallee.of_mem_children (Node.mem_children_of_namesNode? hnames)
        ((wellFormed_of_mem_nodes hp hdn).isEvaluated_of_namesNode? hdefinition hnames)
  | @missingInput definition input hd hi =>
    obtain ⟨hdefinition, hdn⟩ := mem_nodes_of_called? hs ho hd
    rcases List.mem_pair.mp hm with rfl | rfl
    · refine hself ?_
      rcases Globals.kind_of_called? hd with hk | hk <;> rw [hk] <;> rfl
    · have hkind := (wellFormed_of_mem_nodes hp hdn).kind_of_mem_declaredInputs hi
      exact evaluates_of_mem_nodes hp
        (mem_nodes_of_mem_children hdn (definition.declaredInputs_sublist_children.subset hi))
        (by rw [Conflict.site, hkind]; rfl)

theorem evaluates_of_mem_analyze (hc : conflict ∈ program.analyze.conflicts) :
    ∀ site ∈ conflict.sites, program.Evaluates site.node := by
  rcases List.mem_append.mp hc with hc | hc
  · obtain ⟨source, hs, hc⟩ := List.mem_flatMap.mp hc
    obtain ⟨occurrence, ho, hf⟩ := Globals.exists_finds_of_mem hc
    exact evaluates_of_finds hp hs ho hf
  · obtain ⟨borrow, closing, cycle, rfl, ⟨source, hs, hb⟩, other, ho, hclosing⟩ :=
      exists_borrows_of_mem_borrowCycles hc
    intro site hm
    rcases List.mem_cons.mp hm with rfl | hm
    · exact evaluates_of_mem_borrows hp hs hb
    · split at hm
      next => simp at hm
      next =>
        cases List.mem_singleton.mp hm
        exact evaluates_of_mem_borrows hp ho hclosing

end Reachable

/-- Every site of a conflict stands in a source outside of all documentation, and the conflict is
found again by the node of the site. The first site is the primary one. A node that stands in no
source has no conflicts. -/
theorem sites_of_mem_analyze (hp : program.Reachable Node.WellFormed) :
    (∀ conflict ∈ program.analyze.conflicts,
      (∀ site ∈ conflict.sites, (∃ source ∈ program.sources, site.node ∈ source.evaluatedNodes) ∧
        conflict ∈ program.analyze.involving site.node) ∧
      ∃ first rest, conflict.sites = first :: rest ∧ first.template.role = .primary ∧
        first.node = conflict.primary ∧ ∀ site ∈ rest, site.template.role = .secondary) ∧
    ∀ node : Node, (∀ source ∈ program.sources, ∀ other ∈ source.descendants,
      other.same node = false) → program.analyze.involving node = [] := by
  refine ⟨fun conflict hc => ⟨fun site hs => ⟨evaluates_of_mem_analyze hp hc site hs, ?_⟩,
    conflict.sites_eq_cons⟩, fun node hn => List.filter_eq_nil_iff.mpr fun conflict hc hi => ?_⟩
  · exact List.mem_filter.mpr ⟨hc, List.any_eq_true.mpr ⟨site, hs, by simp [Node.same]⟩⟩
  · obtain ⟨site, hs, hsame⟩ := List.any_eq_true.mp hi
    obtain ⟨source, hm, he⟩ := evaluates_of_mem_analyze hp hc site hs
    have hother := hn source hm site.node (Node.mem_descendants_of_mem_evaluatedNodes he)
    rw [hother] at hsame
    cases hsame

/-- A call in one source lacks an input of the documented structure in another. -/
theorem sites_of_mem_analyze_documented :
    documented.Reachable Node.WellFormed ∧
    (documented.analyze.conflicts.map fun conflict => conflict.sites.map (·.node.id)) =
      [[25, 10]] ∧
    (∀ conflict ∈ documented.analyze.conflicts, ∀ site ∈ conflict.sites,
      (∃ source ∈ documented.sources, site.node ∈ source.evaluatedNodes) ∧
        conflict ∈ documented.analyze.involving site.node) ∧
    documented.analyze.involving closedSource = [] := by
  have h := sites_of_mem_analyze reachable_documented
  exact ⟨reachable_documented, by decide +kernel, fun conflict hc => (h.1 conflict hc).1,
    h.2 closedSource (by decide +kernel)⟩

end Program

end ProgramTree
