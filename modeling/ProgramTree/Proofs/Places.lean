import Mathlib.Data.List.Lex
import ProgramTree.Proofs.Occurrences

namespace ProgramTree.Node

/-- The node at a place, which is told by the positions of the children on the way there. -/
def descendant? (root : Node) (place : List Nat) : Option Node :=
  place.foldlM (fun node position => node.children[position]?) root

/-- The places of a tree, from the root downwards and from child to child. -/
def places (root : Node) : List (List Nat) :=
  [] :: root.children.zipIdx.attach.flatMap fun ⟨(child, position), _⟩ =>
    child.places.map (position :: ·)
termination_by sizeOf root
decreasing_by exact sizeOf_lt_of_mem_children (List.fst_mem_of_mem_zipIdx ‹_›)

/-- The list holds every place at which the tree has a node, once and in pre-order, in which a place
comes before the places below it and an earlier child with all below it before a later one. -/
structure HasPlaces (root : Node) (places : List (List Nat)) : Prop where
  mem_iff : ∀ place, place ∈ places ↔ (root.descendant? place).isSome = true
  ordered : places.Pairwise (· < ·)
  nodes : places.map root.descendant? = root.descendants.map some

variable {root child : Node} {position : Nat} {place : List Nat}

theorem places_eq (root : Node) :
    root.places = [] :: root.children.zipIdx.flatMap fun entry =>
      entry.1.places.map (entry.2 :: ·) := by
  have ha := congrArg (List.flatMap fun entry : Node × Nat => entry.1.places.map (entry.2 :: ·))
    (List.attach_map_subtype_val root.children.zipIdx)
  rw [List.flatMap_map] at ha
  rw [places, ← ha]

theorem mem_places :
    place ∈ root.places ↔ place = [] ∨ ∃ position child inner,
      root.children[position]? = some child ∧ inner ∈ child.places ∧ place = position :: inner := by
  rw [places_eq, List.mem_cons, List.mem_flatMap]
  refine or_congr_right ⟨?_, ?_⟩
  · rintro ⟨⟨child, position⟩, hm, hp⟩
    obtain ⟨inner, hi, rfl⟩ := List.mem_map.mp hp
    exact ⟨position, child, inner, List.mem_zipIdx_iff_getElem?.mp hm, hi, rfl⟩
  · rintro ⟨position, child, inner, hc, hi, rfl⟩
    exact ⟨(child, position), List.mem_zipIdx_iff_getElem?.mpr hc, List.mem_map.mpr ⟨inner, hi, rfl⟩⟩

theorem descendant?_cons (root : Node) (position : Nat) (place : List Nat) :
    root.descendant? (position :: place) =
      root.children[position]?.bind (·.descendant? place) := by
  rw [descendant?, List.foldlM_cons]
  rfl

theorem mem_places_iff (root : Node) (place : List Nat) :
    place ∈ root.places ↔ (root.descendant? place).isSome = true := by
  induction place generalizing root with
  | nil => exact iff_of_true (mem_places.mpr (.inl rfl)) rfl
  | cons position place ih =>
    rw [mem_places, descendant?_cons]
    cases hc : root.children[position]? with
    | none => simp [hc]
    | some child => simp [hc, ih]

theorem pairwise_places (root : Node) : root.places.Pairwise (· < ·) := by
  induction root using induction_children with
  | step root ih =>
    rw [places_eq, List.pairwise_cons]
    refine ⟨fun place hp => ?_, List.pairwise_flatMap.mpr ⟨?_, ?_⟩⟩
    · obtain ⟨entry, -, hp⟩ := List.mem_flatMap.mp hp
      obtain ⟨inner, -, rfl⟩ := List.mem_map.mp hp
      exact List.nil_lt_cons ..
    · rintro ⟨child, position⟩ hm
      refine List.pairwise_map.mpr ((ih child (List.fst_mem_of_mem_zipIdx hm)).imp fun hlt => ?_)
      exact List.cons_lt_cons_iff.mpr (.inr ⟨rfl, hlt⟩)
    · have hpositions : root.children.zipIdx.Pairwise fun first second => first.2 < second.2 := by
        rw [← List.pairwise_map (f := Prod.snd), List.zipIdx_map_snd]
        exact List.pairwise_lt_range' ..
      refine hpositions.imp fun hlt first hf second hs => ?_
      obtain ⟨_, -, rfl⟩ := List.mem_map.mp hf
      obtain ⟨_, -, rfl⟩ := List.mem_map.mp hs
      exact List.cons_lt_cons_iff.mpr (.inl hlt)

theorem map_descendant?_places (root : Node) :
    root.places.map root.descendant? = root.descendants.map some := by
  induction root using induction_children with
  | step root ih =>
    have hentry : ∀ entry ∈ root.children.zipIdx,
        (entry.1.places.map (entry.2 :: ·)).map root.descendant? =
          entry.1.descendants.map some := by
      rintro ⟨child, position⟩ hm
      have hc : root.children[position]? = some child := List.mem_zipIdx_iff_getElem?.mp hm
      rw [← ih child (List.mem_of_getElem? hc), List.map_map]
      refine List.map_congr_left fun place _ => ?_
      simp [descendant?_cons, hc]
    have hfst : root.children.flatMap descendants =
        root.children.zipIdx.flatMap fun entry => entry.1.descendants := by
      rw [← List.flatMap_map Prod.fst, List.zipIdx_map_fst]
    rw [places_eq, descendants_eq, hfst, List.map_cons, List.map_cons, List.map_flatMap,
      List.map_flatMap, List.flatMap_congr hentry]
    rfl

theorem hasPlaces (root : Node) : root.HasPlaces root.places :=
  ⟨root.mem_places_iff, root.pairwise_places, root.map_descendant?_places⟩

theorem length_flatMap_descendants {nodes : List Node}
    (h : ∀ node ∈ nodes, node.descendants.length = node.size) :
    (nodes.flatMap descendants).length = total size nodes := by
  induction nodes with
  | nil => rfl
  | cons node rest ih =>
    obtain ⟨hfirst, hrest⟩ := List.forall_mem_cons.mp h
    rw [List.flatMap_cons, List.length_append, hfirst, ih hrest, total_cons]

theorem length_descendants (root : Node) : root.descendants.length = root.size := by
  induction root using induction_children with
  | step root ih =>
    rw [descendants_eq, List.length_cons, length_flatMap_descendants ih, root.size_eq, Nat.add_comm]

end ProgramTree.Node
