import ProgramTree.Proofs.SearchMoves

namespace ProgramTree

/-- The source and the position of the edge that closed a circle: the latest edge that the last
source of the circle followed. -/
def ClosedCycle.place? (closed : ClosedCycle) : Option (Nat × Nat) :=
  closed.circle.getLast?.map fun visit => (visit.vertex, visit.next - 1)

/-- A circle of distinct sources of the graph, each entered from the one before it, and an edge of
the last source that leads back to the first. -/
structure ClosedCycle.Sound (graph : BorrowGraph) (closed : ClosedCycle) : Prop where
  linked : closed.circle.IsChain graph.Entered
  distinct : (closed.circle.map (·.vertex)).Nodup
  inRange : ∀ visit ∈ closed.circle, visit.vertex < graph.sourceCount
  first : ∃ first, closed.circle.head? = some first ∧ first.vertex = closed.edge.target
  last : ∃ last position, closed.circle.getLast? = some last ∧ last.next = position + 1 ∧
    graph.edgeAt (last.vertex, position) = some closed.edge

namespace Search

variable {graph : BorrowGraph} {search : Search}

theorem RouteMarked.nodup {marks : List Mark} {route : List Nat} (h : RouteMarked marks route) :
    route.Nodup := by
  rw [List.nodup_iff_pairwise_ne, List.pairwise_iff_getElem]
  intro i j hi hj hlt he
  have hm := (h route[i] i).mpr (List.getElem?_eq_getElem hi)
  have hm' := (h route[j] j).mpr (List.getElem?_eq_getElem hj)
  rw [he] at hm
  cases Option.some.inj (hm.symm.trans hm')
  omega

theorem mem_route {vertex : Nat} :
    vertex ∈ search.route ↔ ∃ visit ∈ search.path, visit.vertex = vertex := by
  simp [route]

theorem Consistent.mark_of_mem_path (h : Consistent graph search) {visit : Visit}
    (hv : visit ∈ search.path) : ∃ depth, search.marks[visit.vertex]? = some (.onPath depth) := by
  obtain ⟨depth, hd⟩ := List.mem_iff_getElem?.mp (mem_route.mpr ⟨visit, hv, rfl⟩)
  exact ⟨depth, (h.onPath visit.vertex depth).mpr hd⟩

theorem Consistent.lt_of_mark (h : Consistent graph search) {vertex : Nat} {mark : Mark}
    (hm : search.marks[vertex]? = some mark) : vertex < graph.sourceCount := by
  rw [← h.marks_length]
  exact (List.getElem?_eq_some_iff.mp hm).1

section Close

variable {visit : Visit} {outer : List Visit} {edge : BorrowEdge} {depth : Nat}

theorem Consistent.getLast?_close (h : Consistent graph search)
    (hp : search.path = visit :: outer)
    (hm : search.marks[edge.target]? = some (.onPath depth)) :
    ((visit.advance :: outer).reverse.drop depth).getLast? = some visit.advance := by
  have hb := (List.getElem?_eq_some_iff.mp ((h.onPath edge.target depth).mp hm)).1
  have hlt : depth < (visit.advance :: outer).length := by simpa [route, hp] using hb
  rw [List.getLast?_drop, if_neg (by simpa using hlt)]
  simp

theorem Consistent.place?_close (h : Consistent graph search) (hp : search.path = visit :: outer)
    (hm : search.marks[edge.target]? = some (.onPath depth)) :
    (ClosedCycle.mk ((visit.advance :: outer).reverse.drop depth) edge).place? =
      some (visit.vertex, visit.next) := by
  rw [ClosedCycle.place?, h.getLast?_close hp hm]
  rfl

theorem Consistent.sound_close (h : Consistent graph search) (hp : search.path = visit :: outer)
    (he : graph.edgeAt (visit.vertex, visit.next) = some edge)
    (hm : search.marks[edge.target]? = some (.onPath depth)) :
    ClosedCycle.Sound graph ⟨(visit.advance :: outer).reverse.drop depth, edge⟩ := by
  have hroute : (visit.advance :: outer).reverse.map (·.vertex) = search.route := by
    simp [route, hp, Visit.advance]
  have htarget := (h.onPath edge.target depth).mp hm
  refine ⟨?_, ?_, ?_, ?_, ⟨visit.advance, visit.next, h.getLast?_close hp hm, rfl, he⟩⟩
  · have hl := linked_advance (hp ▸ h.linked)
    exact (List.isChain_reverse.mpr hl).drop depth
  · rw [List.map_drop, hroute]
    exact h.onPath.nodup.sublist (List.drop_sublist depth _)
  · intro inner hi
    have hmem : inner.vertex ∈ search.route := by
      rw [← hroute]
      exact List.mem_map.mpr ⟨inner, List.mem_of_mem_drop hi, rfl⟩
    obtain ⟨other, ho, hv⟩ := mem_route.mp hmem
    obtain ⟨d, hd⟩ := h.mark_of_mem_path ho
    exact h.lt_of_mark (hv ▸ hd)
  · rw [← hroute, List.getElem?_map] at htarget
    obtain ⟨first, hf, hv⟩ := Option.map_eq_some_iff.mp htarget
    exact ⟨first, by rw [List.head?_drop]; exact hf, hv⟩

end Close

theorem Reached.sound (h : Reached graph search) :
    ∀ closed ∈ search.closed, closed.Sound graph := by
  induction h with
  | initial => simp [Search.initial]
  | @move before after hr hm ih =>
    cases hm with
    | close hp he hd =>
      intro closed hc
      rcases List.mem_append.mp hc with hc | hc
      · exact ih closed hc
      · cases List.mem_singleton.mp hc
        exact hr.consistent.sound_close hp he hd
    | _ => exact ih

end Search

end ProgramTree
