import ProgramTree.Proofs.Executable
import ProgramTree.Proofs.Provenance
import ProgramTree.Proofs.ReportedCircles

namespace ProgramTree

namespace Node

variable {root node child : Node}

def isBorrow (node : Node) : Bool :=
  node.kind == .borrow

namespace WellFormed

/-- Only a source has borrows below it. -/
theorem filter_isBorrow_below (h : root.WellFormed) (hk : root.kind ≠ .source) :
    (root.children.flatMap descendants).filter isBorrow = [] := by
  rw [List.filter_eq_nil_iff]
  intro node hn hb
  obtain ⟨child, hc, hd⟩ := List.mem_flatMap.mp hn
  have hkind : node.kind = .borrow := beq_iff_eq.mp hb
  have hroot : ∀ parent ∈ root.descendants, node ∉ parent.children := by
    intro parent hp hm
    obtain ⟨hs, -⟩ := (h.of_mem_descendants hp).mem_borrows_of_mem_children hm hkind
    exact hk (h.eq_root_of_kind_source hp hs ▸ hs)
  rcases mem_descendants_parent hd with rfl | ⟨parent, hp, hm⟩
  · exact hroot root (mem_descendants_self root) hc
  · exact hroot parent (mem_descendants.mpr (Or.inr ⟨child, hc, hp⟩)) hm

theorem filter_isBorrow_of_kind_ne (h : root.WellFormed) (hk : root.kind ≠ .source) :
    root.descendants.filter isBorrow = [root].filter isBorrow := by
  rw [descendants_eq, ← List.singleton_append, List.filter_append, h.filter_isBorrow_below hk,
    List.append_nil]

theorem filter_isBorrow_of_name_ne (h : root.WellFormed) {name : String} {content : Field Node}
    (hf : (name, content) ∈ root.fields) (hne : name ≠ "borrows") :
    content.nodes.filter isBorrow = [] := by
  rw [List.filter_eq_nil_iff]
  intro node hn hb
  have hkind : node.kind = .borrow := beq_iff_eq.mp hb
  obtain ⟨rule, hr, rfl, ha⟩ := h.exists_rule_of_mem hf
  obtain ⟨permit, hp, had⟩ := ha.admitted node hn
  have he := Permit.eq_kind_of_admits (by simp [hkind]) (by rw [hkind]; rfl) had
  rw [he, hkind] at hp
  obtain ⟨-, rfl⟩ := root.kind.eq_of_permit_borrow rule hr hp
  exact hne rfl

theorem filter_isBorrow_children (h : root.WellFormed) (hk : root.kind = .source) :
    root.children.filter isBorrow = root.borrows := by
  have hnames : root.fields.map (·.1) = ["names", "borrows", "body"] := by
    rw [h.fits.names, hk]
    rfl
  obtain ⟨⟨_, names⟩, tail, hfields, rfl, htail⟩ := List.map_eq_cons_iff.mp hnames
  obtain ⟨⟨_, borrows⟩, last, rfl, rfl, hlast⟩ := List.map_eq_cons_iff.mp htail
  obtain ⟨⟨_, body⟩, none, rfl, rfl, hnone⟩ := List.map_eq_cons_iff.mp hlast
  cases List.map_eq_nil_iff.mp hnone
  have hn : names.nodes.filter isBorrow = [] := by
    have hm : ("names", names) ∈ root.fields := by simp [hfields]
    exact h.filter_isBorrow_of_name_ne hm (by decide)
  have hb : body.nodes.filter isBorrow = [] := by
    have hm : ("body", body) ∈ root.fields := by simp [hfields]
    exact h.filter_isBorrow_of_name_ne hm (by decide)
  have hlist : borrows.nodes = root.elements "borrows" := by
    have hr : FieldRule.list "borrows" [.kind .borrow] ∈ root.kind.grammar := by
      rw [hk]
      decide
    have hm : ("borrows", borrows) ∈ root.fields := by simp [hfields]
    cases Option.some.inj ((h.field?_of_mem hm).symm.trans (h.field?_eq_list hr))
    rfl
  have hall : (root.elements "borrows").filter isBorrow = root.elements "borrows" := by
    rw [List.filter_eq_self]
    intro node hm
    exact beq_iff_eq.mpr ((h.mem_borrows_iff hk).mp (by simpa [Node.borrows, hk] using hm)).2
  simp [children, hfields, List.filter_append, hn, hb, hlist, hall, Node.borrows, hk]

/-- The borrows of a tree under a source, in pre-order, are those that the source lists. -/
theorem filter_isBorrow_descendants (h : root.WellFormed) (hk : root.kind = .source) :
    root.descendants.filter isBorrow = root.borrows := by
  have hchildren : ∀ child ∈ root.children,
      child.descendants.filter isBorrow = [child].filter isBorrow := fun child hc =>
    (h.of_mem_children hc).filter_isBorrow_of_kind_ne (h.kind_child_ne_source hc)
  have hroot : root.isBorrow = false := by simp [isBorrow, hk]
  rw [descendants_eq, List.filter_cons_of_neg (by simp [hroot]), List.filter_flatMap,
    List.flatMap_congr hchildren, ← List.filter_flatMap, List.flatMap_singleton',
    h.filter_isBorrow_children hk]

end WellFormed

end Node

namespace Program

variable {given : Node → Prop} {program : Program} {borrow source : Node}

theorem isSome_target?_iff (hk : program.Keyed given) (borrow : Node) :
    (borrow.borrowedSource?.bind program.indexOf?).isSome = true ↔ program.NamesSource borrow := by
  rw [namesSource_iff]
  cases borrow.borrowedSource? with
  | none => simp
  | some name => simp [isSome_indexOf? hk]

/-- The edges of a source are its borrows whose names are found, in order. -/
theorem map_borrow_edgesOf (program : Program) (source : Node) :
    (BorrowGraph.edgesOf program source).map (·.borrow) =
      source.borrows.filter fun borrow =>
        (borrow.borrowedSource?.bind program.indexOf?).isSome := by
  rw [BorrowGraph.edgesOf, List.map_filterMap, ← List.filterMap_eq_filter]
  refine List.filterMap_congr fun borrow _ => ?_
  cases ht : borrow.borrowedSource?.bind program.indexOf? <;> simp [Option.guard, ht]

theorem map_borrow_edgesOf_eq (hk : program.Keyed given) (source : Node) :
    (BorrowGraph.edgesOf program source).map (·.borrow) =
      source.borrows.filter (program.NamesSource ·) := by
  rw [map_borrow_edgesOf]
  refine List.filter_congr fun borrow _ => Bool.eq_iff_iff.mpr ?_
  rw [isSome_target?_iff hk, decide_eq_true_iff]

theorem filter_isUnknownBorrow_conflictsAt (hk : program.Keyed given) (scope : Scope)
    {node : Node} (h : node.WellFormed) :
    ((Globals.ofProgram program).conflictsAt scope node).filter (·.isUnknownBorrow) =
      ([node].filter fun node => !program.NamesSource node && node.isBorrow).map
        .unknownBorrow := by
  by_cases hb : node.kind = .borrow
  · rw [Globals.conflictsAt_of_borrow hb, Globals.borrowConflicts_eq hk h hb]
    by_cases hn : program.NamesSource node <;>
      simp [hn, hb, Node.isBorrow, Conflict.isUnknownBorrow]
  · simp [Globals.filter_isUnknownBorrow_of_kind_ne hb, hb, Node.isBorrow]

/-- The unknown borrows that are reported for a source are its borrows that name no source, in
order. -/
theorem filter_isUnknownBorrow_sourceConflicts (hk : program.Keyed given) (h : source.WellFormed)
    (hs : source.kind = .source) :
    ((Globals.ofProgram program).sourceConflicts source).filter (·.isUnknownBorrow) =
      (source.borrows.filter fun borrow => !program.NamesSource borrow).map .unknownBorrow := by
  have hplace : ∀ occurrence ∈ source.occurrences,
      ((Globals.ofProgram program).conflictsAt (.around occurrence.ancestors)
        occurrence.node).filter (·.isUnknownBorrow) =
      ([occurrence.node].filter fun node => !program.NamesSource node && node.isBorrow).map
        .unknownBorrow := fun occurrence ho =>
    filter_isUnknownBorrow_conflictsAt hk _
      (h.of_mem_descendants (Node.mem_descendants_of_mem_occurrences ho))
  rw [Globals.sourceConflicts_eq_flatMap, List.filter_flatMap, List.flatMap_congr hplace,
    ← List.map_flatMap, ← List.filter_flatMap, ← h.filter_isBorrow_descendants hs,
    List.filter_filter, ← Node.map_node_occurrences]
  congr 2
  exact (List.map_eq_flatMap).symm

theorem edgesFrom_ofProgram {index : Nat} (hs : program.sources[index]? = some source) :
    (BorrowGraph.ofProgram program).edgesFrom index = BorrowGraph.edgesOf program source := by
  simp [BorrowGraph.edgesFrom, BorrowGraph.ofProgram, hs]

/-- Each borrow of a source is unknown or makes an edge. -/
theorem countP_add_length_edgesOf (hk : program.Keyed given) (h : source.WellFormed)
    (hs : source.kind = .source) :
    ((Globals.ofProgram program).sourceConflicts source).countP (·.isUnknownBorrow) +
      (BorrowGraph.edgesOf program source).length = source.borrows.length := by
  have hunknown := congrArg List.length (filter_isUnknownBorrow_sourceConflicts hk h hs)
  have hedges := congrArg List.length (map_borrow_edgesOf_eq hk source)
  have hsplit := List.length_eq_length_filter_add (l := source.borrows)
    fun borrow => decide (program.NamesSource borrow)
  rw [List.length_map] at hunknown hedges
  rw [List.countP_eq_length_filter]
  omega

theorem countP_borrowCycles (program : Program) :
    program.borrowCycles.countP (·.isUnknownBorrow) = 0 := by
  rw [List.countP_eq_zero]
  intro conflict hc
  obtain ⟨closed, -, rfl⟩ := List.mem_map.mp hc
  simp [BorrowGraph.conflictOf, Conflict.isUnknownBorrow]

theorem countP_add_edgeCount (hp : program.Keyed Node.WellFormed) :
    program.analyze.conflicts.countP (·.isUnknownBorrow) +
      (BorrowGraph.ofProgram program).edgeCount = total (·.borrows.length) program.sources := by
  have hsum : ∀ sources : List Node, (∀ source ∈ sources, source ∈ program.sources) →
      (sources.flatMap (Globals.ofProgram program).sourceConflicts).countP (·.isUnknownBorrow) +
        total List.length (sources.map (BorrowGraph.edgesOf program)) =
          total (·.borrows.length) sources := by
    intro sources
    induction sources with
    | nil => simp
    | cons source rest ih =>
      intro hm
      obtain ⟨hw, hs, -⟩ := hp.mem_sources (hm source List.mem_cons_self)
      have hsource := countP_add_length_edgesOf hp hw hs
      have hrest := ih fun other ho => hm other (List.mem_cons_of_mem _ ho)
      simp only [List.flatMap_cons, List.countP_append, List.map_cons, total_cons]
      omega
  have hsources := hsum program.sources fun _ h => h
  have hcycles := countP_borrowCycles program
  have hedges : (BorrowGraph.ofProgram program).edgeCount =
      total List.length (program.sources.map (BorrowGraph.edgesOf program)) := rfl
  simp only [analyze, List.countP_append]
  omega

/-- The graph and the check of borrows agree. For each source, the borrows that name a source are
the edges, in order, and lead where the name is looked up. The other borrows of its tree are those
reported as unknown, in order. So no borrow of the program is lost or counted twice. -/
theorem edges_and_unknown_borrows (hp : program.Reachable Node.WellFormed) :
    (∀ index source, program.sources[index]? = some source →
      source.descendants.filter (·.kind == .borrow) = source.borrows ∧
      ((BorrowGraph.ofProgram program).edgesFrom index).map (·.borrow) =
        source.borrows.filter (program.NamesSource ·) ∧
      (∀ edge ∈ (BorrowGraph.ofProgram program).edgesFrom index,
        edge.borrow.borrowedSource?.bind program.indexOf? = some edge.target ∧
          edge.target < (BorrowGraph.ofProgram program).sourceCount) ∧
      ((Globals.ofProgram program).sourceConflicts source).filter (·.isUnknownBorrow) =
        (source.borrows.filter fun borrow => !program.NamesSource borrow).map .unknownBorrow) ∧
    program.analyze.conflicts.countP (·.isUnknownBorrow) +
      (BorrowGraph.ofProgram program).edgeCount = total (·.borrows.length) program.sources := by
  refine ⟨fun index source hs => ?_, countP_add_edgeCount hp.keyed⟩
  obtain ⟨hw, hkind, -⟩ := hp.keyed.mem_sources (List.mem_of_getElem? hs)
  refine ⟨hw.filter_isBorrow_descendants hkind, ?_, fun edge he => ?_,
    filter_isUnknownBorrow_sourceConflicts hp.keyed hw hkind⟩
  · rw [edgesFrom_ofProgram hs, map_borrow_edgesOf_eq hp.keyed]
  · obtain ⟨_, name, _, _, hn, ht⟩ := BorrowGraph.mem_edgesFrom_ofProgram.mp he
    exact ⟨by rw [hn, Option.bind_some, ht], indexOf?_lt ht⟩

/-- A source that borrows from `c`, which is not there, and from `b`. -/
def lackingSource : Node :=
  sourceOf 6 "a" [borrowOf 3 "c", borrowOf 0 "b"]

def lacking : Program :=
  ⟨[("a", lackingSource), ("b", sourceOf 10 "b" [])]⟩

theorem reachable_lacking : lacking.Reachable Node.WellFormed := by
  have hmade : ofSources lacking.sources = .ok lacking := rfl
  refine .ofSources (fun source hs => ?_) hmade
  rcases List.mem_pair.mp hs with rfl | rfl <;> decide +kernel

theorem edges_and_unknown_borrows_lacking :
    lacking.Reachable Node.WellFormed ∧ lacking.sources[0]? = some lackingSource ∧
    ((BorrowGraph.ofProgram lacking).edgesFrom 0).map (·.borrow) = [borrowOf 0 "b"] ∧
    ((Globals.ofProgram lacking).sourceConflicts lackingSource).filter (·.isUnknownBorrow) =
      [.unknownBorrow (borrowOf 3 "c")] ∧
    lacking.analyze.conflicts.countP (·.isUnknownBorrow) +
      (BorrowGraph.ofProgram lacking).edgeCount = 2 := by
  have h := edges_and_unknown_borrows reachable_lacking
  obtain ⟨-, hedges, -, hunknown⟩ := h.1 0 lackingSource rfl
  exact ⟨reachable_lacking, rfl, hedges.trans rfl, hunknown.trans rfl, h.2.trans rfl⟩

end Program

end ProgramTree
