import ProgramTree.Proofs.DeepReplacement

namespace ProgramTree.Node

variable {root target node parent : Node} {path : List Step}

/-- The paths that lead to a node of the tree, in their order. They lead to all its nodes, place by
place as a walk visits them. -/
structure Enumerates (root : Node) (paths : List (List Step)) : Prop where
  mem_iff : ∀ path, path ∈ paths ↔ ∃ node, root.nodeAt? path = some node
  nodup : paths.Nodup
  ordered : paths.Pairwise root.Precedes
  nodes : paths.map root.nodeAt? = root.descendants.map some

/-- The path leads to the target, and none before it does. -/
structure FirstAt (root target : Node) (path : List Step) : Prop where
  here : ∃ node, root.nodeAt? path = some node ∧ node.same target = true
  before : ∀ earlier node, root.Precedes earlier path → root.nodeAt? earlier = some node →
    node.same target = false

/-- What a tree answers when it is asked for the path to a node and for its parent. -/
structure Located (root target : Node) : Prop where
  path_none_iff : pathTo? target root = none ↔ ∀ node ∈ root.descendants, node.same target = false
  path_some_iff : ∀ path, pathTo? target root = some path ↔ root.FirstAt target path
  parent_none_iff : parentOf? target root = none ↔
    root.same target = true ∨ ∀ node ∈ root.descendants, node.same target = false
  parent_some_iff : ∀ parent, parentOf? target root = some parent ↔
    ∃ front step, pathTo? target root = some (front ++ [step]) ∧ root.nodeAt? front = some parent
  held : ∀ parent, parentOf? target root = some parent →
    ∃ child ∈ parent.children, child.same target = true

theorem exists_occurrence_of_nodeAt? (h : root.nodeAt? path = some node) :
    ∃ place ∈ root.occurrences, place.path = path ∧ place.node = node := by
  induction path generalizing root with
  | nil =>
    cases h
    exact ⟨_, mem_occurrences.mpr (.inl rfl), rfl, rfl⟩
  | cons step path ih =>
    rw [nodeAt?_cons] at h
    obtain ⟨child, hc, hn⟩ := Option.bind_eq_some_iff.mp h
    obtain ⟨inner, hi, rfl, rfl⟩ := ih hn
    have hb := mem_branches_of_childAt? hc
    exact ⟨_, mem_occurrences.mpr (.inr ⟨step, child, inner, hb, hi, rfl⟩), rfl, rfl⟩

theorem parentOf?_eq (target root : Node) :
    parentOf? target root = (pathTo? target root).bind fun path =>
      if path.isEmpty then none else root.nodeAt? path.dropLast := rfl

theorem parentOf?_eq_some_iff :
    parentOf? target root = some parent ↔ ∃ front step,
      pathTo? target root = some (front ++ [step]) ∧ root.nodeAt? front = some parent := by
  rw [parentOf?_eq]
  cases hp : pathTo? target root with
  | none => simp
  | some path =>
    rcases List.eq_nil_or_concat' path with rfl | ⟨front, step, rfl⟩
    · simp
    · constructor
      · intro hparent
        exact ⟨front, step, rfl, by simpa using hparent⟩
      · rintro ⟨other, turn, he, hparent⟩
        obtain ⟨rfl, _⟩ := List.append_inj' (Option.some.inj he) rfl
        simpa using hparent

namespace WellFormed

theorem enumerates_occurrences (h : root.WellFormed) :
    root.Enumerates (root.occurrences.map (·.path)) where
  mem_iff path := by
    refine List.mem_map.trans ⟨?_, ?_⟩
    · rintro ⟨place, hp, rfl⟩
      exact ⟨place.node, h.nodeAt?_of_mem_occurrences hp⟩
    · rintro ⟨node, hn⟩
      obtain ⟨place, hp, hpath, _⟩ := exists_occurrence_of_nodeAt? hn
      exact ⟨place, hp, hpath⟩
  nodup := List.pairwise_map.mpr (h.pairwise_occurrences.imp Precedes.ne)
  ordered := List.pairwise_map.mpr h.pairwise_occurrences
  nodes := by
    rw [← map_node_occurrences, List.map_map, List.map_map]
    exact List.map_congr_left fun place hp => h.nodeAt?_of_mem_occurrences hp

theorem pathTo?_eq_some_iff (h : root.WellFormed) :
    pathTo? target root = some path ↔ root.FirstAt target path := by
  have hpairs := h.pairwise_occurrences
  rw [pathTo?_eq_find?, Option.map_eq_some_iff]
  constructor
  · rintro ⟨place, hfind, rfl⟩
    obtain ⟨hs, before, after, hsplit, hnone⟩ := List.find?_eq_some_iff_append.mp hfind
    have hplace : place ∈ root.occurrences := by simp [hsplit]
    refine ⟨⟨place.node, h.nodeAt?_of_mem_occurrences hplace, hs⟩, fun earlier node hlt hn => ?_⟩
    obtain ⟨other, ho, rfl, rfl⟩ := exists_occurrence_of_nodeAt? hn
    rw [hsplit, List.pairwise_append, List.pairwise_cons] at hpairs
    rw [hsplit, List.mem_append, List.mem_cons] at ho
    rcases ho with hb | rfl | ha
    · simpa using hnone other hb
    · exact absurd rfl hlt.ne
    · exact absurd hlt (hpairs.2.1.1 other ha).asymm
  · rintro ⟨⟨node, hn, hs⟩, hbefore⟩
    obtain ⟨place, hplace, rfl, rfl⟩ := exists_occurrence_of_nodeAt? hn
    obtain ⟨before, after, hsplit⟩ := List.append_of_mem hplace
    rw [hsplit, List.pairwise_append] at hpairs
    refine ⟨place, List.find?_eq_some_iff_append.mpr ⟨hs, before, after, hsplit, ?_⟩, rfl⟩
    intro other ho
    have hlt := hpairs.2.2 other ho place List.mem_cons_self
    have hother : other ∈ root.occurrences := by simp [hsplit, ho]
    simpa using hbefore _ _ hlt (h.nodeAt?_of_mem_occurrences hother)

theorem exists_nodeAt?_of_pathTo? (h : root.WellFormed) {front : List Step} {step : Step}
    (hp : pathTo? target root = some (front ++ [step])) :
    ∃ parent child, root.nodeAt? front = some parent ∧ child ∈ parent.children ∧
      child.same target = true := by
  obtain ⟨child, hc, hs⟩ := (h.pathTo?_eq_some_iff.mp hp).here
  rw [nodeAt?_append] at hc
  obtain ⟨parent, hparent, hlast⟩ := Option.bind_eq_some_iff.mp hc
  rw [nodeAt?_cons] at hlast
  obtain ⟨held, hheld, he⟩ := Option.bind_eq_some_iff.mp hlast
  cases he
  exact ⟨parent, child, hparent, mem_children_of_childAt? hheld, hs⟩

theorem parentOf?_eq_none_iff (h : root.WellFormed) :
    parentOf? target root = none ↔ root.same target = true ∨ pathTo? target root = none := by
  rw [← pathTo?_eq_nil_iff, parentOf?_eq]
  cases hp : pathTo? target root with
  | none => simp
  | some path =>
    rcases List.eq_nil_or_concat' path with rfl | ⟨front, step, rfl⟩
    · simp
    · obtain ⟨parent, _, hparent, _⟩ := h.exists_nodeAt?_of_pathTo? hp
      simp [hparent]

theorem located (h : root.WellFormed) (target : Node) : root.Located target where
  path_none_iff := pathTo?_eq_none_iff
  path_some_iff _ := h.pathTo?_eq_some_iff
  parent_none_iff := h.parentOf?_eq_none_iff.trans (or_congr_right pathTo?_eq_none_iff)
  parent_some_iff _ := parentOf?_eq_some_iff
  held parent hparent := by
    obtain ⟨front, step, hp, hn⟩ := parentOf?_eq_some_iff.mp hparent
    obtain ⟨holder, child, hholder, hc, hs⟩ := h.exists_nodeAt?_of_pathTo? hp
    cases hn.symm.trans hholder
    exact ⟨child, hc, hs⟩

end WellFormed

/-- The path to a node that has one occurrence is the one that leads there. -/
theorem pathTo?_of_countP_eq_one (hn : root.nodeAt? path = some node)
    (hone : root.descendants.countP (·.same node) = 1) : pathTo? node root = some path := by
  obtain ⟨place, hplace, rfl, rfl⟩ := exists_occurrence_of_nodeAt? hn
  obtain ⟨before, after, hsplit⟩ := List.append_of_mem hplace
  rw [← map_node_occurrences, hsplit, List.countP_map, List.countP_append,
    List.countP_cons_of_pos (by simp [same_self])] at hone
  have hbefore : before.countP ((·.same place.node) ∘ (·.node)) = 0 := by omega
  refine pathTo?_of_find? (List.find?_eq_some_iff_append.mpr
    ⟨same_self _, before, after, hsplit, fun other ho => ?_⟩)
  simpa using List.countP_eq_zero.mp hbefore other ho

/-- The paths of a tree correspond to the occurrences of its nodes, in order. The path to a node is
that of its first occurrence, and its parent is where the last step is taken from. -/
theorem paths_of_occurrences (h : root.WellFormed) :
    (∃ paths, root.Enumerates paths) ∧ (∀ target, root.Located target) ∧
      ∀ path node, root.nodeAt? path = some node →
        root.descendants.countP (·.same node) = 1 → pathTo? node root = some path :=
  ⟨⟨_, h.enumerates_occurrences⟩, h.located, fun _ _ => pathTo?_of_countP_eq_one⟩

/-- The letter of a phrase is found at its first place, in the word; the mark has only one place. -/
theorem paths_of_occurrences_phrase :
    phrase.WellFormed ∧
      phrase.FirstAt phraseLetter [⟨"segments", some 0⟩, ⟨"segments", some 0⟩] ∧
      parentOf? phraseLetter phrase = some phraseWord ∧
      pathTo? phraseMark phrase = some [⟨"segments", some 1⟩] := by
  obtain ⟨_, hlocated, hone⟩ := paths_of_occurrences wellFormed_phrase
  have hletter := hlocated phraseLetter
  have hparent := (hletter.parent_some_iff phraseWord).mpr
    ⟨[⟨"segments", some 0⟩], ⟨"segments", some 0⟩, pathTo?_phraseLetter, rfl⟩
  exact ⟨wellFormed_phrase, (hletter.path_some_iff _).mp pathTo?_phraseLetter, hparent,
    hone _ _ rfl (by decide +kernel)⟩

end ProgramTree.Node
