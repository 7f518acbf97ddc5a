import Mathlib.Data.List.Chain
import Mathlib.Data.List.Nodup
import ProgramTree.CycleSearch
import ProgramTree.Proofs.BorrowEdges

namespace ProgramTree

namespace BorrowGraph

/-- The latest edge that one visit followed leads to the other. -/
def Entered (graph : BorrowGraph) (outer inner : Visit) : Prop :=
  ∃ position edge, position + 1 = outer.next ∧
    graph.edgeAt (outer.vertex, position) = some edge ∧
    inner.vertex = edge.target ∧ inner.via = some edge.borrow

end BorrowGraph

namespace Search

/-- All that one step of a search can do. -/
inductive Move (graph : BorrowGraph) (search : Search) : Search → Prop
  | descend {visit : Visit} {outer : List Visit} {edge : BorrowEdge}
      (hp : search.path = visit :: outer)
      (he : graph.edgeAt (visit.vertex, visit.next) = some edge)
      (hm : search.marks[edge.target]? = some .unvisited) :
      Move graph search
        { search with
          marks := search.marks.set edge.target (.onPath search.path.length)
          path := ⟨edge.target, 0, some edge.borrow⟩ :: visit.advance :: outer }
  | close {visit : Visit} {outer : List Visit} {edge : BorrowEdge} {depth : Nat}
      (hp : search.path = visit :: outer)
      (he : graph.edgeAt (visit.vertex, visit.next) = some edge)
      (hm : search.marks[edge.target]? = some (.onPath depth)) :
      Move graph search
        { search with
          path := visit.advance :: outer
          closed := search.closed ++ [⟨(visit.advance :: outer).reverse.drop depth, edge⟩] }
  | pass {visit : Visit} {outer : List Visit} {edge : BorrowEdge}
      (hp : search.path = visit :: outer)
      (he : graph.edgeAt (visit.vertex, visit.next) = some edge)
      (hm : ∀ mark, search.marks[edge.target]? = some mark → mark = .done) :
      Move graph search { search with path := visit.advance :: outer }
  | leave {visit : Visit} {outer : List Visit}
      (hp : search.path = visit :: outer)
      (he : graph.edgeAt (visit.vertex, visit.next) = none) :
      Move graph search
        { search with marks := search.marks.set visit.vertex .done, path := outer }
  | start {start : Nat} {starts : List Nat}
      (hp : search.path = []) (hs : search.starts = start :: starts)
      (hm : search.marks[start]? = some .unvisited) :
      Move graph search
        { search with
          starts := starts
          marks := search.marks.set start (.onPath 0)
          path := [⟨start, 0, none⟩] }
  | skip {start : Nat} {starts : List Nat}
      (hp : search.path = []) (hs : search.starts = start :: starts)
      (hm : search.marks[start]? ≠ some .unvisited) :
      Move graph search { search with starts := starts }

theorem move_step (graph : BorrowGraph) {search : Search} (h : search.isFinished = false) :
    Move graph search (search.step graph) := by
  unfold step
  split
  next visit outer hp =>
    split
    next edge he =>
      unfold follow
      split
      next hm =>
        have hd := Move.descend hp he hm
        simpa [enter, hp] using hd
      next depth hm => exact .close hp he hm
      next hu ho =>
        refine .pass hp he fun mark hmark => ?_
        cases mark with
        | unvisited => exact absurd hmark hu
        | onPath depth => exact absurd hmark (ho depth)
        | done => rfl
    next he => exact .leave hp he
  next hp =>
    split
    next start starts hs =>
      split
      next hm =>
        have ht : Move graph search _ := .start hp hs hm
        simpa [enter, hp] using ht
      next hm => exact .skip hp hs hm
    next hs => simp [isFinished, hp, hs] at h

/-- The states that a search of a graph goes through. -/
inductive Reached (graph : BorrowGraph) : Search → Prop
  | initial : Reached graph (initial graph)
  | move {search after : Search} (hr : Reached graph search) (hm : Move graph search after) :
      Reached graph after

theorem Reached.run {graph : BorrowGraph} {search : Search} (h : Reached graph search) :
    Reached graph (search.run graph) ∧ (search.run graph).isFinished = true := by
  fun_induction Search.run graph search with
  | case1 search hf => exact ⟨h, hf⟩
  | case2 search hf ih => exact ih (h.move (move_step graph (by simpa using hf)))

/-- The sources on the path, from the first one entered to the latest. -/
def route (search : Search) : List Nat :=
  (search.path.map (·.vertex)).reverse

/-- The sources marked with a depth are the sources of the route, each marked with its position. -/
def RouteMarked (marks : List Mark) (route : List Nat) : Prop :=
  ∀ vertex depth : Nat, marks[vertex]? = some (.onPath depth) ↔ route[depth]? = some vertex

/-- What the marks, the path and the starts of a search say of each other. -/
structure Consistent (graph : BorrowGraph) (search : Search) : Prop where
  marks_length : search.marks.length = graph.sourceCount
  onPath : RouteMarked search.marks search.route
  linked : search.path.IsChain fun inner outer => graph.Entered outer inner
  starts : ∀ vertex, search.marks[vertex]? = some .unvisited → vertex ∈ search.starts

section Marks

variable {marks : List Mark} {route : List Nat} {vertex : Nat}

/-- Setting a mark leaves the places of every other mark as they were. -/
theorem getElem?_of_set_ne {entered : Nat} {mark other : Mark} (hne : mark ≠ other)
    (h : (marks.set entered mark)[vertex]? = some other) :
    entered ≠ vertex ∧ marks[vertex]? = some other := by
  rw [List.getElem?_set] at h
  split at h
  next =>
    split at h
    next => exact absurd (Option.some.inj h) hne
    next => cases h
  next hv => exact ⟨hv, h⟩

theorem getElem?_append_singleton_of_ne {other : Nat} (hne : vertex ≠ other) (depth : Nat) :
    (route ++ [vertex])[depth]? = some other ↔ route[depth]? = some other := by
  rcases Nat.lt_or_ge depth route.length with hd | hd
  · rw [List.getElem?_append_left hd]
  · rw [List.getElem?_eq_none hd, List.getElem?_append_right hd]
    cases depth - route.length <;> simp [hne]

theorem RouteMarked.push (h : RouteMarked marks route)
    (hu : marks[vertex]? = some .unvisited) :
    RouteMarked (marks.set vertex (.onPath route.length)) (route ++ [vertex]) := by
  intro v d
  obtain ⟨hb, _⟩ := List.getElem?_eq_some_iff.mp hu
  have hn : ∀ d : Nat, route[d]? ≠ some vertex := by
    intro d hd
    have hm := hu.symm.trans ((h vertex d).mpr hd)
    cases hm
  rw [List.getElem?_set]
  by_cases hv : vertex = v
  · subst hv
    rcases Nat.lt_trichotomy d route.length with hd | rfl | hd
    · have := hn d
      simp only [hb, ↓reduceIte, List.getElem?_append_left hd, Option.some.injEq,
        Mark.onPath.injEq, this, iff_false]
      omega
    · simp [hb]
    · have hl : (route ++ [vertex]).length ≤ d := by simp; omega
      simp only [hb, ↓reduceIte, List.getElem?_eq_none hl, Option.some.injEq, Mark.onPath.injEq,
        reduceCtorEq, iff_false]
      omega
  · rw [if_neg hv, h v d, getElem?_append_singleton_of_ne hv]

theorem RouteMarked.pop (h : RouteMarked marks (route ++ [vertex])) :
    RouteMarked (marks.set vertex .done) route := by
  intro v d
  have ht : marks[vertex]? = some (.onPath route.length) := (h vertex route.length).mpr (by simp)
  obtain ⟨hb, _⟩ := List.getElem?_eq_some_iff.mp ht
  rw [List.getElem?_set]
  by_cases hv : vertex = v
  · subst hv
    simp only [hb, ↓reduceIte, Option.some.injEq, reduceCtorEq, false_iff]
    intro hd
    have hl := (List.getElem?_eq_some_iff.mp hd).1
    have hm := (h vertex d).mpr (by rw [List.getElem?_append_left hl]; exact hd)
    have he := Option.some.inj (hm.symm.trans ht)
    cases he
    omega
  · rw [if_neg hv, h v d, getElem?_append_singleton_of_ne hv]

end Marks

theorem linked_advance {graph : BorrowGraph} {visit : Visit} {outer : List Visit}
    (h : (visit :: outer).IsChain fun inner outer => graph.Entered outer inner) :
    (visit.advance :: outer).IsChain fun inner outer => graph.Entered outer inner := by
  cases h with
  | singleton => exact .singleton _
  | cons_cons hl hr => exact .cons_cons hl hr

theorem Consistent.initial (graph : BorrowGraph) : Consistent graph (initial graph) where
  marks_length := by simp [Search.initial]
  onPath := by
    intro vertex depth
    simp [Search.initial, route, List.getElem?_replicate]
  linked := .nil
  starts := by
    intro vertex h
    have hb := (List.getElem?_eq_some_iff.mp h).1
    simpa [Search.initial] using hb

theorem Consistent.move {graph : BorrowGraph} {search after : Search}
    (h : Consistent graph search) (hm : Move graph search after) : Consistent graph after := by
  cases hm with
  | @descend visit outer edge hp he hu =>
    have hl := hp ▸ h.linked
    refine ⟨by simpa using h.marks_length, ?_, ?_, ?_⟩
    · have ho := h.onPath.push hu
      simpa [route, hp, Visit.advance] using ho
    · exact .cons_cons ⟨visit.next, edge, rfl, he, rfl, rfl⟩ (linked_advance hl)
    · intro vertex hv
      exact h.starts vertex (getElem?_of_set_ne (by simp) hv).2
  | @close visit outer edge depth hp he hd =>
    have hl := hp ▸ h.linked
    refine ⟨h.marks_length, ?_, linked_advance hl, h.starts⟩
    simpa [route, hp, Visit.advance] using h.onPath
  | @pass visit outer edge hp he hd =>
    have hl := hp ▸ h.linked
    refine ⟨h.marks_length, ?_, linked_advance hl, h.starts⟩
    simpa [route, hp, Visit.advance] using h.onPath
  | @leave visit outer hp he =>
    have hl := hp ▸ h.linked
    refine ⟨by simpa using h.marks_length, ?_, hl.tail, ?_⟩
    · have ho : RouteMarked search.marks ((outer.map (·.vertex)).reverse ++ [visit.vertex]) := by
        simpa [route, hp] using h.onPath
      exact ho.pop
    · intro vertex hv
      exact h.starts vertex (getElem?_of_set_ne (by simp) hv).2
  | @start start starts hp hs hu =>
    refine ⟨by simpa using h.marks_length, ?_, .singleton _, ?_⟩
    · have ho := h.onPath.push hu
      simpa [route, hp] using ho
    · intro vertex hv
      obtain ⟨hne, hv⟩ := getElem?_of_set_ne (by simp) hv
      have hmem := h.starts vertex hv
      rw [hs] at hmem
      exact (List.mem_cons.mp hmem).resolve_left (Ne.symm hne)
  | @skip start starts hp hs hu =>
    refine ⟨h.marks_length, h.onPath, h.linked, ?_⟩
    intro vertex hv
    have hmem := h.starts vertex hv
    rw [hs] at hmem
    refine (List.mem_cons.mp hmem).resolve_left ?_
    rintro rfl
    exact hu hv

theorem Reached.consistent {graph : BorrowGraph} {search : Search} (h : Reached graph search) :
    Consistent graph search := by
  induction h with
  | initial => exact .initial graph
  | move _ hm ih => exact ih.move hm

end Search

end ProgramTree
