import Mathlib.Data.List.Nodup
import ProgramTree.Proofs.ExploredEdges

namespace ProgramTree

namespace BorrowGraph

/-- A graph as it is built: each source has its row of edges, and every edge leads to a source. -/
structure WellIndexed (graph : BorrowGraph) : Prop where
  rows : graph.edges.length = graph.sourceCount
  targets : ∀ row ∈ graph.edges, ∀ edge ∈ row, edge.target < graph.sourceCount

/-- Where the edges of a graph stand: the source that has one, and its position there. -/
def places (graph : BorrowGraph) : List (Nat × Nat) :=
  (List.range graph.sourceCount).flatMap fun vertex =>
    (List.range (graph.edgesFrom vertex).length).map (vertex, ·)

variable {graph : BorrowGraph}

theorem exists_row_of_edgeAt {place : Nat × Nat} {edge : BorrowEdge}
    (h : graph.edgeAt place = some edge) :
    ∃ row, graph.edges[place.1]? = some row ∧ row[place.2]? = some edge := by
  cases hrow : graph.edges[place.1]? with
  | none => simp [edgeAt, edgesFrom, hrow] at h
  | some row => exact ⟨row, rfl, by simpa [edgeAt, edgesFrom, hrow] using h⟩

theorem WellIndexed.inRange (h : graph.WellIndexed) : graph.InRange := by
  intro place edge he
  obtain ⟨row, hr, hedge⟩ := exists_row_of_edgeAt he
  refine ⟨?_, h.targets row (List.mem_of_getElem? hr) edge (List.mem_of_getElem? hedge)⟩
  rw [← h.rows]
  exact (List.getElem?_eq_some_iff.mp hr).1

theorem wellIndexed_ofProgram (program : Program) : (ofProgram program).WellIndexed where
  rows := by simp [ofProgram, sourceCount]
  targets := by
    intro row hr edge he
    obtain ⟨index, hi⟩ := List.mem_iff_getElem?.mp hr
    obtain ⟨position, hp⟩ := List.mem_iff_getElem?.mp he
    have hedge : (ofProgram program).edgeAt (index, position) = some edge := by
      simp [edgeAt, edgesFrom, hi, hp]
    exact (inRange_ofProgram program _ _ hedge).2

theorem nodup_places (graph : BorrowGraph) : graph.places.Nodup := by
  refine List.nodup_flatMap.mpr ⟨fun vertex _ => ?_, ?_⟩
  · exact List.nodup_range.map fun first second he => (Prod.mk.inj he).2
  · refine List.nodup_range.imp fun {first second} hne => ?_
    simp only [Function.onFun, List.disjoint_left, List.mem_map]
    rintro _ ⟨_, _, rfl⟩ ⟨_, _, he⟩
    exact hne (Prod.mk.inj he).1.symm

theorem mem_places (hr : graph.InRange) {place : Nat × Nat} :
    place ∈ graph.places ↔ ∃ edge, graph.edgeAt place = some edge := by
  obtain ⟨vertex, position⟩ := place
  simp only [places, List.mem_flatMap, List.mem_map, List.mem_range, Prod.mk.injEq]
  constructor
  · rintro ⟨_, _, _, hp, rfl, rfl⟩
    exact ⟨_, List.getElem?_eq_getElem hp⟩
  · rintro ⟨edge, he⟩
    exact ⟨vertex, (hr _ _ he).1, position, (List.getElem?_eq_some_iff.mp he).1, rfl, rfl⟩

end BorrowGraph

namespace Search

variable {graph : BorrowGraph} {search after : Search}

/-- The source that the next turn lays on the path. -/
def pushed? (graph : BorrowGraph) (search : Search) : Option Nat :=
  if search.path.length < (search.step graph).path.length then
    (search.step graph).path.head?.map (·.vertex)
  else none

/-- The place of the edge that the next turn follows. -/
def examined? (graph : BorrowGraph) (search : Search) : Option (Nat × Nat) := do
  let visit ← search.path.head?
  let _ ← graph.edgeAt (visit.vertex, visit.next)
  return (visit.vertex, visit.next)

/-- What a search has pushed and examined up to a turn: each source that is no longer unvisited
once, and each edge that it has been past once. -/
structure Logged (graph : BorrowGraph) (pushed : List Nat) (examined : List (Nat × Nat))
    (search : Search) : Prop where
  pushed_nodup : pushed.Nodup
  mem_pushed : ∀ vertex, vertex ∈ pushed ↔
    ∃ mark, search.marks[vertex]? = some mark ∧ mark ≠ .unvisited
  examined_nodup : examined.Nodup
  mem_examined : ∀ place, place ∈ examined ↔
    (∃ edge, graph.edgeAt place = some edge) ∧ search.Past place

theorem Logged.initial (graph : BorrowGraph) : Logged graph [] [] (initial graph) where
  pushed_nodup := .nil
  mem_pushed := by simp [Search.initial, List.getElem?_replicate]
  examined_nodup := .nil
  mem_examined := by simp [Search.initial, Past, OnWay, List.getElem?_replicate]

section Marks

variable {marks : List Mark} {entered vertex : Nat} {mark : Mark}

theorem visited_set (hb : entered < marks.length) (hm : mark ≠ .unvisited) :
    (∃ other, (marks.set entered mark)[vertex]? = some other ∧ other ≠ .unvisited) ↔
      (∃ other, marks[vertex]? = some other ∧ other ≠ .unvisited) ∨ entered = vertex := by
  by_cases hv : entered = vertex
  · subst hv
    simp [hb, hm]
  · simp [List.getElem?_set_ne hv, hv]

theorem done_set_onPath (hu : marks[entered]? = some .unvisited) (depth : Nat) :
    (marks.set entered (.onPath depth))[vertex]? = some .done ↔ marks[vertex]? = some .done := by
  by_cases hv : entered = vertex
  · subst hv
    rw [List.getElem?_set_self (List.getElem?_eq_some_iff.mp hu).1, hu]
    simp
  · rw [List.getElem?_set_ne hv]

theorem done_set_done (hb : entered < marks.length) :
    (marks.set entered .done)[vertex]? = some .done ↔
      marks[vertex]? = some .done ∨ entered = vertex := by
  by_cases hv : entered = vertex
  · subst hv
    simp [hb]
  · simp [List.getElem?_set_ne hv, hv]

end Marks

section Past

variable {visit : Visit} {outer : List Visit} {place : Nat × Nat}

theorem onWay_cons : OnWay (visit :: outer) place ↔
    visit.vertex = place.1 ∧ place.2 < visit.next ∨ OnWay outer place := by
  simp [OnWay]

theorem onWay_advance : OnWay (visit.advance :: outer) place ↔
    OnWay (visit :: outer) place ∨ (visit.vertex, visit.next) = place := by
  have hlt : place.2 < visit.next + 1 ↔ place.2 < visit.next ∨ visit.next = place.2 := by omega
  rw [onWay_cons, onWay_cons, Prod.ext_iff, Visit.advance, hlt, and_or_left, or_right_comm]

theorem onWay_enter (vertex : Nat) (via : Option Node) :
    OnWay (⟨vertex, 0, via⟩ :: outer) place ↔ OnWay outer place := by
  simp [OnWay]

/-- A source whose edges are used up has followed each of them. -/
theorem lt_next_of_used (hu : graph.edgeAt (visit.vertex, visit.next) = none) {edge : BorrowEdge}
    (he : graph.edgeAt place = some edge) (hv : visit.vertex = place.1) :
    place.2 < visit.next := by
  have hl := List.getElem?_eq_none_iff.mp hu
  have hb := (List.getElem?_eq_some_iff.mp he).1
  rw [← hv] at hb
  exact Nat.lt_of_lt_of_le hb hl

end Past

section Logged

variable {pushed : List Nat} {examined : List (Nat × Nat)}

/-- What is logged after a turn that pushes and examines at most one thing each. -/
theorem Logged.grow (h : Logged graph pushed examined search) {entered : Option Nat}
    {followed : Option (Nat × Nat)}
    (hu : ∀ vertex, entered = some vertex → search.marks[vertex]? = some .unvisited)
    (hvisited : ∀ vertex, (∃ mark, after.marks[vertex]? = some mark ∧ mark ≠ .unvisited) ↔
      (∃ mark, search.marks[vertex]? = some mark ∧ mark ≠ .unvisited) ∨ entered = some vertex)
    (hn : ∀ place, followed = some place →
      (∃ edge, graph.edgeAt place = some edge) ∧ ¬ search.Past place)
    (hpast : ∀ place edge, graph.edgeAt place = some edge →
      (after.Past place ↔ search.Past place ∨ followed = some place)) :
    Logged graph (pushed ++ entered.toList) (examined ++ followed.toList) after where
  pushed_nodup := by
    refine List.nodup_append.mpr ⟨h.pushed_nodup, by cases entered <;> simp, ?_⟩
    rintro vertex hv _ he rfl
    obtain ⟨mark, hm, hne⟩ := (h.mem_pushed vertex).mp hv
    exact hne (Option.some.inj (hm.symm.trans (hu vertex (Option.mem_toList.mp he))))
  mem_pushed vertex := by
    rw [List.mem_append, h.mem_pushed, Option.mem_toList, hvisited]
  examined_nodup := by
    refine List.nodup_append.mpr ⟨h.examined_nodup, by cases followed <;> simp, ?_⟩
    rintro place hp _ he rfl
    exact (hn place (Option.mem_toList.mp he)).2 ((h.mem_examined place).mp hp).2
  mem_examined place := by
    rw [List.mem_append, h.mem_examined, Option.mem_toList]
    constructor
    · rintro (⟨⟨edge, he⟩, hp⟩ | hf)
      · exact ⟨⟨edge, he⟩, (hpast place edge he).mpr (.inl hp)⟩
      · obtain ⟨edge, he⟩ := (hn place hf).1
        exact ⟨⟨edge, he⟩, (hpast place edge he).mpr (.inr hf)⟩
    · rintro ⟨⟨edge, he⟩, hp⟩
      exact ((hpast place edge he).mp hp).imp_left fun h => ⟨⟨edge, he⟩, h⟩

variable {visit : Visit} {outer : List Visit} {edge : BorrowEdge}

theorem examined?_eq (hp : search.path = visit :: outer)
    (he : graph.edgeAt (visit.vertex, visit.next) = some edge) :
    search.examined? graph = some (visit.vertex, visit.next) := by
  simp [examined?, hp, he]

theorem Logged.descend (hc : Consistent graph search) (h : Logged graph pushed examined search)
    (hp : search.path = visit :: outer)
    (he : graph.edgeAt (visit.vertex, visit.next) = some edge)
    (hu : search.marks[edge.target]? = some .unvisited) :
    Logged graph (pushed ++ (some edge.target).toList)
      (examined ++ (some (visit.vertex, visit.next)).toList) { search with
        marks := search.marks.set edge.target (.onPath search.path.length)
        path := ⟨edge.target, 0, some edge.borrow⟩ :: visit.advance :: outer } := by
  have hb := (List.getElem?_eq_some_iff.mp hu).1
  refine h.grow (by simpa using hu) (fun vertex => ?_) ?_ fun place _ _ => ?_
  · rw [visited_set hb (by simp), Option.some.injEq]
  · rintro _ ⟨⟩
    exact ⟨⟨edge, he⟩, hc.not_past_next hp⟩
  · rw [Past, Past, done_set_onPath hu, onWay_enter, onWay_advance, ← hp, or_assoc,
      Option.some.injEq]

/-- An edge that leads to no unvisited source is examined and nothing is pushed. -/
theorem Logged.advance (hc : Consistent graph search) (h : Logged graph pushed examined search)
    (hp : search.path = visit :: outer)
    (he : graph.edgeAt (visit.vertex, visit.next) = some edge)
    (hpath : after.path = visit.advance :: outer) (hmarks : after.marks = search.marks) :
    Logged graph (pushed ++ none.toList)
      (examined ++ (some (visit.vertex, visit.next)).toList) after := by
  refine h.grow (by simp) (by simp [hmarks]) ?_ fun place _ _ => ?_
  · rintro _ ⟨⟩
    exact ⟨⟨edge, he⟩, hc.not_past_next hp⟩
  · rw [Past, Past, hmarks, hpath, onWay_advance, ← hp, or_assoc, Option.some.injEq]

/-- One turn adds what it pushes and what it examines. -/
theorem Logged.move (hc : Consistent graph search) (h : Logged graph pushed examined search)
    (hm : Move graph search after) (hs : search.step graph = after) :
    Logged graph (pushed ++ (search.pushed? graph).toList)
      (examined ++ (search.examined? graph).toList) after := by
  cases hm with
  | @descend visit outer edge hp he hu =>
    have hpushed : search.pushed? graph = some edge.target := by simp [pushed?, hs, hp]
    rw [hpushed, examined?_eq hp he]
    exact h.descend hc hp he hu
  | @close visit outer edge depth hp he hd =>
    have hpushed : search.pushed? graph = none := by simp [pushed?, hs, hp]
    rw [hpushed, examined?_eq hp he]
    exact h.advance hc hp he rfl rfl
  | @pass visit outer edge hp he hd =>
    have hpushed : search.pushed? graph = none := by simp [pushed?, hs, hp]
    rw [hpushed, examined?_eq hp he]
    exact h.advance hc hp he rfl rfl
  | @leave visit outer hp he =>
    have hpushed : search.pushed? graph = none := by simp [pushed?, hs, hp]
    have hexamined : search.examined? graph = none := by simp [examined?, hp, he]
    rw [hpushed, hexamined]
    obtain ⟨depth, hd⟩ := hc.mark_of_mem_path (hp ▸ List.mem_cons_self : visit ∈ search.path)
    have hb := (List.getElem?_eq_some_iff.mp hd).1
    refine h.grow (by simp) (fun vertex => ?_) (by simp) fun place edge hplace => ?_
    · have hleft : visit.vertex = vertex →
          ∃ other, search.marks[vertex]? = some other ∧ other ≠ .unvisited :=
        fun hv => ⟨.onPath depth, hv ▸ hd, by simp⟩
      rw [visited_set hb (by simp), or_iff_left_of_imp hleft]
      simp
    · have hused := and_iff_left_of_imp (lt_next_of_used he hplace)
      rw [Past, Past, done_set_done hb, hp, onWay_cons, hused, or_assoc]
      simp
  | @start start starts hp hstarts hu =>
    have hpushed : search.pushed? graph = some start := by simp [pushed?, hs, hp]
    have hexamined : search.examined? graph = none := by simp [examined?, hp]
    have hb := (List.getElem?_eq_some_iff.mp hu).1
    rw [hpushed, hexamined]
    refine h.grow (by simpa using hu) (fun vertex => ?_) (by simp) fun place _ _ => ?_
    · rw [visited_set hb (by simp), Option.some.injEq]
    · rw [Past, Past, done_set_onPath hu, onWay_enter, ← hp]
      simp
  | @skip start starts hp hstarts hu =>
    have hpushed : search.pushed? graph = none := by simp [pushed?, hs, hp]
    have hexamined : search.examined? graph = none := by simp [examined?, hp]
    rw [hpushed, hexamined]
    exact h.grow (by simp) (by simp) (by simp) (by simp [Past])

end Logged

end Search

end ProgramTree
