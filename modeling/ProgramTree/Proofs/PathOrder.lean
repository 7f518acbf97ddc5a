import ProgramTree.Proofs.Occurrences

namespace ProgramTree

/-- Of two steps out of a node the first leads into an earlier field, or into the same list at a
lower index. -/
inductive Step.Before (kind : Kind) (earlier later : Step) : Prop
  | field (h : (kind.grammar.map (·.name)).idxOf earlier.field <
      (kind.grammar.map (·.name)).idxOf later.field) : Before kind earlier later
  | index {i j : Nat} (hf : earlier.field = later.field) (he : earlier.index = some i)
      (hl : later.index = some j) (hlt : i < j) : Before kind earlier later

theorem Step.Before.asymm {kind : Kind} {first second : Step} (h : first.Before kind second) :
    ¬ second.Before kind first := by
  intro hb
  cases h with
  | field h =>
    cases hb with
    | field hb => omega
    | index hf => exact absurd h (by simp [hf])
  | index hf he hl hlt =>
    cases hb with
    | field hb => exact absurd hb (by simp [hf])
    | index _ he' hl' hlt' =>
      cases he.symm.trans hl'
      cases hl.symm.trans he'
      omega

theorem Step.Before.irrefl {kind : Kind} {step : Step} : ¬ step.Before kind step :=
  fun h => h.asymm h

theorem pairwise_idxOf {names : List String} (hn : names.Nodup) :
    names.Pairwise fun first second => names.idxOf first < names.idxOf second := by
  refine List.pairwise_iff_getElem.mpr fun i j hi hj hlt => ?_
  rw [hn.idxOf_getElem, hn.idxOf_getElem]
  exact hlt

namespace Node

/-- The order of the paths from a root: a path comes before its extensions, and of two paths that
part the one with the earlier step comes first. -/
inductive Precedes : Node → List Step → List Step → Prop
  | extension (root : Node) (step : Step) (path : List Step) : Precedes root [] (step :: path)
  | parting {root : Node} {step turn : Step} (path other : List Step)
      (h : step.Before root.kind turn) : Precedes root (step :: path) (turn :: other)
  | inside {root child : Node} {step : Step} {path other : List Step}
      (hc : root.childAt? step = some child) (h : Precedes child path other) :
      Precedes root (step :: path) (step :: other)

variable {root node : Node} {path other : List Step}

theorem Precedes.asymm (h : root.Precedes path other) : ¬ root.Precedes other path := by
  induction h with
  | extension => nofun
  | parting path other h =>
    intro hb
    cases hb with
    | parting _ _ hb => exact h.asymm hb
    | inside => exact h.irrefl
  | inside hc _ ih =>
    intro hb
    cases hb with
    | parting _ _ hb => exact hb.irrefl
    | inside hc' hb =>
      cases hc.symm.trans hc'
      exact ih hb

theorem Precedes.ne (h : root.Precedes path other) : path ≠ other := by
  rintro rfl
  exact h.asymm h

namespace WellFormed

/-- The steps out of a node are taken by field, and in a list by index. -/
theorem pairwise_branches (h : root.WellFormed) :
    root.branches.Pairwise fun first second => first.1.Before root.kind second.1 := by
  refine List.pairwise_flatMap.mpr ⟨?_, ?_⟩
  · rintro ⟨name, content⟩ -
    cases content with
    | one => simp [Field.indexed]
    | optional present => cases present <;> simp [Field.indexed]
    | list nodes =>
      simp only [Field.indexed, List.map_map, List.pairwise_iff_getElem]
      intro i j hi hj hlt
      exact .index (i := i) (j := j) (by simp) (by simp) (by simp) hlt
  · have hn : (root.fields.map (·.1)).Pairwise fun first second =>
        (root.kind.grammar.map (·.name)).idxOf first <
          (root.kind.grammar.map (·.name)).idxOf second := by
      rw [h.fits.names]
      exact pairwise_idxOf root.kind.grammar_names_nodup
    refine (List.pairwise_map.mp hn).imp fun hlt first hf second hs => .field ?_
    obtain ⟨_, _, rfl⟩ := List.mem_map.mp hf
    obtain ⟨_, _, rfl⟩ := List.mem_map.mp hs
    exact hlt

/-- The occurrences of a tree are listed in the order of their paths. -/
theorem pairwise_occurrences (h : root.WellFormed) :
    root.occurrences.Pairwise fun first second => root.Precedes first.path second.path := by
  induction root using induction_children with
  | step root ih =>
    rw [occurrences_eq, List.pairwise_cons]
    constructor
    · intro later hl
      obtain ⟨branch, _, hl⟩ := List.mem_flatMap.mp hl
      obtain ⟨inner, _, rfl⟩ := List.mem_map.mp hl
      exact .extension root branch.1 inner.path
    · refine List.pairwise_flatMap.mpr ⟨?_, ?_⟩
      · rintro ⟨step, child⟩ hb
        have hc := mem_children_of_branches hb
        have hstep := h.childAt?_of_mem_branches hb
        exact List.pairwise_map.mpr ((ih child hc (h.of_mem_children hc)).imp (.inside hstep))
      · refine h.pairwise_branches.imp fun hbefore first hf second hs => ?_
        obtain ⟨inner, _, rfl⟩ := List.mem_map.mp hf
        obtain ⟨outer, _, rfl⟩ := List.mem_map.mp hs
        exact .parting inner.path outer.path hbefore

/-- A path leads to the node of its occurrence. -/
theorem nodeAt?_of_mem_occurrences (h : root.WellFormed) {place : Occurrence}
    (hp : place ∈ root.occurrences) : root.nodeAt? place.path = some place.node := by
  have htake := h.nodeAt?_take hp (Nat.le_refl _)
  rw [List.take_length, ← length_ancestors hp, List.getElem?_concat_length] at htake
  exact htake

end WellFormed

end Node

end ProgramTree
