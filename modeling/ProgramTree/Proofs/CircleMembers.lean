import ProgramTree.Proofs.CycleCover
import ProgramTree.Proofs.ReportedCircles

namespace ProgramTree

/-- The source of a visit and the position of the latest edge that it followed. -/
def Visit.place (visit : Visit) : Nat × Nat :=
  (visit.vertex, visit.next - 1)

/-- The sources that a conflict lists as a circle. -/
def Conflict.circle : Conflict → List Node
  | .borrowCycle _ _ cycle => cycle
  | _ => []

namespace BorrowGraph

/-- A cycle of borrows, as the places of its edges, that passes each of its sources once. -/
structure Circuit (graph : BorrowGraph) (places : List (Nat × Nat)) : Prop where
  way : ∃ source, graph.Way source places source
  once : (places.map (·.1)).Nodup

/-- The circle that a conflict lists has the source at a position in it. -/
def Lists (graph : BorrowGraph) (conflict : Conflict) (index : Nat) : Prop :=
  ∃ source ∈ conflict.circle, graph.sources[index]? = some source

variable {graph : BorrowGraph} {closed : ClosedCycle}

theorem Entered.edgeAt {outer inner : Visit} (h : graph.Entered outer inner) :
    ∃ edge, graph.edgeAt outer.place = some edge ∧ inner.vertex = edge.target := by
  obtain ⟨position, edge, hp, he, hv, _⟩ := h
  have hplace : outer.place = (outer.vertex, position) := by simp [Visit.place, ← hp]
  exact ⟨edge, hplace ▸ he, hv⟩

/-- The latest edges of the visits of a path, the last of them included, make up a way. -/
theorem way_of_isChain {circle : List Visit} {first last : Visit} {edge : BorrowEdge}
    (hc : circle.IsChain graph.Entered) (hf : circle.head? = some first)
    (hl : circle.getLast? = some last) (he : graph.edgeAt last.place = some edge) :
    graph.Way first.vertex (circle.map (·.place)) edge.target := by
  induction circle generalizing first with
  | nil => simp at hf
  | cons visit rest ih =>
    cases Option.some.inj hf
    cases rest with
    | nil =>
      cases Option.some.inj hl
      exact .cons he (.nil _)
    | cons inner rest =>
      obtain ⟨hs, hrest⟩ := List.isChain_cons_cons.mp hc
      obtain ⟨between, hb, hv⟩ := hs.edgeAt
      have hw := ih hrest rfl (by simpa using hl)
      exact .cons hb (hv ▸ hw)

/-- An edge of a way leads to a source that the way goes on from, or to its end. -/
theorem Way.mem_target {source target : Nat} {places : List (Nat × Nat)}
    (hw : graph.Way source places target) {place : Nat × Nat} {edge : BorrowEdge}
    (hp : place ∈ places) (he : graph.edgeAt place = some edge) :
    edge.target ∈ places.map (·.1) ∨ edge.target = target := by
  induction hw with
  | nil => simp at hp
  | cons ho hrest ih =>
    rcases List.mem_cons.mp hp with rfl | hm
    · cases Option.some.inj (he.symm.trans ho)
      cases hrest with
      | nil => exact .inr rfl
      | cons => exact .inl (by simp)
    · exact (ih hm).imp_left (List.mem_cons_of_mem _)

theorem Circuit.mem_target {places : List (Nat × Nat)} (h : graph.Circuit places)
    {place : Nat × Nat} {edge : BorrowEdge} (hp : place ∈ places)
    (he : graph.edgeAt place = some edge) : edge.target ∈ places.map (·.1) := by
  obtain ⟨source, hw⟩ := h.way
  rcases hw.mem_target hp he with hm | rfl
  · exact hm
  · cases hw with
    | nil => simp at hp
    | cons => exact List.mem_cons_self

theorem circuit_of_sound (h : closed.Sound graph) :
    graph.Circuit (closed.circle.map (·.place)) := by
  obtain ⟨first, hf, ht⟩ := h.first
  obtain ⟨last, position, hl, hn, he⟩ := h.last
  have hplace : last.place = (last.vertex, position) := by simp [Visit.place, hn]
  have hw := way_of_isChain h.linked hf hl (hplace ▸ he)
  refine ⟨⟨closed.edge.target, ht ▸ hw⟩, ?_⟩
  rw [List.map_map]
  exact h.distinct

theorem mem_places_of_place? {place : Nat × Nat} (h : closed.place? = some place) :
    place ∈ closed.circle.map (·.place) := by
  obtain ⟨last, hl, rfl⟩ := Option.map_eq_some_iff.mp h
  exact List.mem_map.mpr ⟨last, List.mem_of_getLast? hl, rfl⟩

theorem lists_conflictOf (h : closed.Sound graph) {index : Nat}
    (hi : index ∈ (closed.circle.map (·.place)).map (·.1)) :
    graph.Lists (graph.conflictOf closed) index := by
  obtain ⟨_, hp, rfl⟩ := List.mem_map.mp hi
  obtain ⟨visit, hv, rfl⟩ := List.mem_map.mp hp
  have hs := List.getElem?_eq_getElem (h.inRange visit hv)
  exact ⟨_, List.mem_filterMap.mpr ⟨visit, hv, hs⟩, hs⟩

/-- A conflict that reports the circle which an edge closes lists both ends of the edge. -/
theorem ReportedAt.lists {conflict : Conflict} {place : Nat × Nat}
    (h : graph.ReportedAt conflict place) :
    ∃ edge, graph.edgeAt place = some edge ∧ graph.Lists conflict place.1 ∧
      graph.Lists conflict edge.target := by
  obtain ⟨borrow, edge, cycle, rfl, he, hl, hf, hne⟩ := h
  rw [List.getLast?_eq_some_getLast hne] at hl
  rw [List.head?_eq_some_head hne] at hf
  exact ⟨edge, he, ⟨_, List.getLast_mem hne, hl.symm⟩, ⟨_, List.head_mem hne, hf.symm⟩⟩

/-- The circle that was closed by an edge of a way back to its own source. -/
theorem Way.exists_closed (hr : graph.InRange) {places : List (Nat × Nat)} {source : Nat}
    (hw : graph.Way source places source) (hne : places ≠ []) :
    ∃ place ∈ places, ∃ closed ∈ graph.closedCycles, closed.place? = some place ∧
      graph.ReportedAt (graph.conflictOf closed) place := by
  obtain ⟨place, hm, hc⟩ := hw.exists_mem_closingPlaces hr hne
  obtain ⟨closed, hclosed, hp⟩ := List.mem_filterMap.mp hc
  obtain ⟨other, ho, hreported⟩ := reportedAt_conflictOf (mem_closedCycles_sound hclosed)
  cases Option.some.inj (hp.symm.trans ho)
  exact ⟨place, hm, closed, hclosed, hp, hreported⟩

end BorrowGraph

namespace Program

/-- Some edge of every cycle of borrows is reported as closing, by a conflict that lists both of its
ends. A source of the cycle is listed itself when every circuit that shares an edge with the cycle
passes that source. -/
theorem borrowCycles_list (program : Program) {index : Nat} {places : List (Nat × Nat)}
    (hw : (BorrowGraph.ofProgram program).Way index places index) (hne : places ≠ []) :
    let graph := BorrowGraph.ofProgram program
    (∃ place ∈ places, ∃ edge, graph.edgeAt place = some edge ∧
      ∃ conflict ∈ program.borrowCycles, graph.ReportedAt conflict place ∧
        graph.Lists conflict place.1 ∧ graph.Lists conflict edge.target) ∧
    ((∀ others, graph.Circuit others → (∃ place ∈ others, place ∈ places) →
        index ∈ others.map (·.1)) →
      ∃ conflict ∈ program.borrowCycles, graph.Lists conflict index) := by
  intro graph
  obtain ⟨place, hm, closed, hc, hp, hreported⟩ :=
    hw.exists_closed (BorrowGraph.inRange_ofProgram program) hne
  have hconflict : graph.conflictOf closed ∈ program.borrowCycles := List.mem_map_of_mem hc
  obtain ⟨edge, he, hends⟩ := hreported.lists
  refine ⟨⟨place, hm, edge, he, _, hconflict, hreported, hends⟩, fun hpass => ?_⟩
  have hs := BorrowGraph.mem_closedCycles_sound hc
  have hi := hpass _ (BorrowGraph.circuit_of_sound hs)
    ⟨place, BorrowGraph.mem_places_of_place? hp, hm⟩
  exact ⟨_, hconflict, BorrowGraph.lists_conflictOf hs hi⟩

/-- The sources `a` and `b` borrow from each other, and `a` reaches `b` by way of `c` as well. -/
def detoured : Program :=
  ⟨[("a", sourceOf 6 "a" [borrowOf 0 "b", borrowOf 3 "c"]),
    ("b", sourceOf 13 "b" [borrowOf 10 "a"]),
    ("c", sourceOf 20 "c" [borrowOf 17 "b"])]⟩

/-- Each circuit that shares an edge with the one of `a` and `b` passes `a`. -/
theorem borrowCycles_list_detoured :
    let graph := BorrowGraph.ofProgram detoured
    graph.Way 0 [(0, 0), (1, 0)] 0 ∧
    (∃ place ∈ [(0, 0), (1, 0)], ∃ edge, graph.edgeAt place = some edge ∧
      ∃ conflict ∈ detoured.borrowCycles, graph.ReportedAt conflict place ∧
        graph.Lists conflict place.1 ∧ graph.Lists conflict edge.target) ∧
    ∃ conflict ∈ detoured.borrowCycles, graph.Lists conflict 0 := by
  intro graph
  have hw : graph.Way 0 [(0, 0), (1, 0)] 0 := .cons rfl (.cons rfl (.nil 0))
  have hback : graph.edgeAt (1, 0) = some ⟨borrowOf 10 "a", 0⟩ := rfl
  obtain ⟨hends, hlisted⟩ := detoured.borrowCycles_list hw (by decide)
  refine ⟨hw, hends, hlisted fun others ho ⟨place, hp, hs⟩ => ?_⟩
  rcases List.mem_pair.mp hs with rfl | rfl
  · exact List.mem_map.mpr ⟨_, hp, rfl⟩
  · exact ho.mem_target hp hback

theorem reachable_detoured : detoured.Reachable Node.WellFormed := by
  have h : ofSources [sourceOf 6 "a" [borrowOf 0 "b", borrowOf 3 "c"],
      sourceOf 13 "b" [borrowOf 10 "a"], sourceOf 20 "c" [borrowOf 17 "b"]] = .ok detoured := rfl
  exact .ofSources (by decide +kernel) h

/-- The borrows by which `c` leads to `b`, `b` to `a` and `a` back to `c`. -/
theorem way_detoured :
    (BorrowGraph.ofProgram detoured).Way 2 [(2, 0), (1, 0), (0, 1)] 2 :=
  .cons rfl (.cons rfl (.cons rfl (.nil 2)))

/-- No conflict lists `c`: the search is done with `b` when it comes to `c`. -/
theorem not_lists_detoured :
    detoured.Reachable Node.WellFormed ∧
    (BorrowGraph.ofProgram detoured).Way 2 [(2, 0), (1, 0), (0, 1)] 2 ∧
    ∀ conflict ∈ detoured.borrowCycles,
      ¬ (BorrowGraph.ofProgram detoured).Lists conflict 2 := by
  have hids : ∀ conflict ∈ detoured.borrowCycles, 23 ∉ conflict.circle.map (·.id) := by
    decide +kernel
  refine ⟨reachable_detoured, way_detoured, fun conflict hc ⟨source, hs, hi⟩ => ?_⟩
  cases Option.some.inj hi
  exact hids conflict hc (List.mem_map.mpr ⟨_, hs, rfl⟩)

end Program

end ProgramTree
