import ProgramTree.BorrowGraph

namespace ProgramTree

/-- How far the search has come with a source. -/
inductive Mark where
  | unvisited
  | onPath (depth : Nat)
  | done
deriving DecidableEq, Repr, Inhabited

/-- A source on the path: the position of the next of its edges to follow, and the borrow that led
to it. -/
structure Visit where
  vertex : Nat
  next : Nat
  via : Option Node
deriving Inhabited

def Visit.advance (visit : Visit) : Visit :=
  { visit with next := visit.next + 1 }

/-- The part of the path that an edge closed to a circle: from the source that the edge leads back
to, up to the source that has the edge. -/
structure ClosedCycle where
  circle : List Visit
  edge : BorrowEdge
deriving Inhabited

/-- A depth-first search. The path has the latest visit first; when it is empty the search starts
again from the next source that is still unvisited. -/
structure Search where
  starts : List Nat
  marks : List Mark
  path : List Visit
  closed : List ClosedCycle
deriving Inhabited

namespace Search

def initial (graph : BorrowGraph) : Search where
  starts := List.range graph.sourceCount
  marks := List.replicate graph.sourceCount .unvisited
  path := []
  closed := []

/-- Marks a source with its depth and lays it on the path. -/
def enter (search : Search) (vertex : Nat) (via : Option Node) : Search :=
  { search with
    marks := search.marks.set vertex (.onPath search.path.length)
    path := ⟨vertex, 0, via⟩ :: search.path }

/-- Follows an edge of the latest visit: enters a source that is unvisited, closes a circle when
the source is on the path, and passes over a source that is done. -/
def follow (search : Search) (edge : BorrowEdge) : Search :=
  match search.marks[edge.target]? with
  | some .unvisited => search.enter edge.target (some edge.borrow)
  | some (.onPath depth) =>
    { search with closed := search.closed ++ [⟨search.path.reverse.drop depth, edge⟩] }
  | _ => search

/-- Follows the next edge of the latest visit, leaves a source whose edges are used up, or starts
from the next source. -/
def step (graph : BorrowGraph) (search : Search) : Search :=
  match search.path with
  | visit :: outer =>
    match (graph.edgesFrom visit.vertex)[visit.next]? with
    | some edge => follow { search with path := visit.advance :: outer } edge
    | none => { search with marks := search.marks.set visit.vertex .done, path := outer }
  | [] =>
    match search.starts with
    | start :: starts =>
      if search.marks[start]? = some .unvisited then
        enter { search with starts := starts } start none
      else
        { search with starts := starts }
    | [] => search

def isFinished (search : Search) : Bool :=
  search.path.isEmpty && search.starts.isEmpty

/-- The edges of the unvisited sources from a position on, and the sources themselves. -/
def unvisitedWeight (graph : BorrowGraph) : Nat → List Mark → Nat
  | _, [] => 0
  | vertex, mark :: marks =>
    (if mark = .unvisited then (graph.edgesFrom vertex).length + 1 else 0) +
      unvisitedWeight graph (vertex + 1) marks

/-- The starts, sources and edges that a search has still to deal with. -/
def remaining (graph : BorrowGraph) (search : Search) : Nat :=
  search.starts.length + unvisitedWeight graph 0 search.marks +
    total (fun visit => (graph.edgesFrom visit.vertex).length - visit.next + 1) search.path

theorem unvisitedWeight_set_le (graph : BorrowGraph) {mark : Mark} (hm : mark ≠ .unvisited)
    (marks : List Mark) (index vertex : Nat) :
    unvisitedWeight graph vertex (marks.set index mark) ≤ unvisitedWeight graph vertex marks := by
  induction marks generalizing index vertex with
  | nil => simp
  | cons old rest ih =>
    cases index with
    | zero => simp [unvisitedWeight, hm]
    | succ index =>
      have := ih index (vertex + 1)
      simp only [List.set_cons_succ, unvisitedWeight]
      omega

theorem unvisitedWeight_set (graph : BorrowGraph) {mark : Mark} (hm : mark ≠ .unvisited)
    {marks : List Mark} {index : Nat} (hu : marks[index]? = some .unvisited) (vertex : Nat) :
    unvisitedWeight graph vertex (marks.set index mark) +
      ((graph.edgesFrom (vertex + index)).length + 1) = unvisitedWeight graph vertex marks := by
  induction marks generalizing index vertex with
  | nil => simp at hu
  | cons old rest ih =>
    cases index with
    | zero =>
      simp only [List.getElem?_cons_zero, Option.some.injEq] at hu
      simp [unvisitedWeight, hm, hu]
      omega
    | succ index =>
      have := ih (by simpa using hu) (vertex + 1)
      simp only [List.set_cons_succ, unvisitedWeight]
      rw [show vertex + (index + 1) = vertex + 1 + index by omega]
      omega

/-- Entering a source moves its weight onto the path. -/
theorem remaining_enter (graph : BorrowGraph) {search : Search} {vertex : Nat}
    (hu : search.marks[vertex]? = some .unvisited) (via : Option Node) :
    (search.enter vertex via).remaining graph = search.remaining graph := by
  have hm : Mark.onPath search.path.length ≠ .unvisited := by simp
  have := unvisitedWeight_set graph hm hu 0
  simp only [Nat.zero_add] at this
  simp [remaining, enter]
  omega

theorem remaining_follow (graph : BorrowGraph) (search : Search) (edge : BorrowEdge) :
    (search.follow edge).remaining graph = search.remaining graph := by
  unfold follow
  split
  next hu => exact remaining_enter graph hu _
  next => rfl
  next => rfl

theorem remaining_step_lt (graph : BorrowGraph) {search : Search}
    (h : search.isFinished = false) :
    (search.step graph).remaining graph < search.remaining graph := by
  unfold step
  split
  next visit outer hp =>
    split
    next edge he =>
      obtain ⟨hn, _⟩ := List.getElem?_eq_some_iff.mp he
      rw [remaining_follow]
      simp [remaining, hp, Visit.advance]
      omega
    next =>
      have hm : Mark.done ≠ .unvisited := by simp
      have := unvisitedWeight_set_le graph hm search.marks visit.vertex 0
      simp [remaining, hp]
      omega
  next hp =>
    split
    next start starts hs =>
      split
      next hu =>
        have hu' : { search with starts := starts }.marks[start]? = some .unvisited := hu
        rw [remaining_enter graph hu']
        simp [remaining, hp, hs]
      next => simp [remaining, hp, hs]
    next hs => simp [isFinished, hp, hs] at h

def run (graph : BorrowGraph) (search : Search) : Search :=
  if search.isFinished then search else run graph (search.step graph)
termination_by search.remaining graph
decreasing_by exact remaining_step_lt graph (Bool.eq_false_iff.mpr ‹_›)

end Search

/-- The circles of a graph, one for each edge that closes one. -/
def BorrowGraph.closedCycles (graph : BorrowGraph) : List ClosedCycle :=
  ((Search.initial graph).run graph).closed

end ProgramTree
