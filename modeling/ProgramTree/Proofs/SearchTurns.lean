import Mathlib.Data.List.Perm.Subperm
import ProgramTree.Proofs.CircleMembers
import ProgramTree.Proofs.SearchLog

namespace ProgramTree

namespace Search

variable {graph : BorrowGraph} {search : Search}

/-- A search at the head of each of its turns, down to the one that is finished. -/
def turns (graph : BorrowGraph) (search : Search) : List Search :=
  if search.isFinished then [search] else search :: turns graph (search.step graph)
termination_by search.remaining graph
decreasing_by exact remaining_step_lt graph (Bool.eq_false_iff.mpr ‹_›)

theorem exists_turns_eq (graph : BorrowGraph) (search : Search) :
    ∃ before, search.turns graph = before ++ [search.run graph] := by
  fun_induction turns graph search with
  | case1 search hf => exact ⟨[], by rw [run, if_pos hf]; rfl⟩
  | case2 search hf ih =>
    obtain ⟨before, hb⟩ := ih
    refine ⟨search :: before, ?_⟩
    rw [run, if_neg hf, hb]
    rfl

/-- Whatever turn a search stands at, the turns before it have been logged. -/
theorem logged_of_turns {pushed : List Nat} {examined : List (Nat × Nat)}
    (hr : Reached graph search) (hl : Logged graph pushed examined search)
    {before rest : List Search} {turn : Search}
    (h : search.turns graph = before ++ turn :: rest) :
    Reached graph turn ∧ Logged graph (pushed ++ before.filterMap (pushed? graph))
      (examined ++ before.filterMap (examined? graph)) turn := by
  fun_induction turns graph search generalizing pushed examined before with
  | case1 search hf =>
    cases before with
    | nil =>
      obtain ⟨rfl, -⟩ := List.cons.inj h
      simpa using ⟨hr, hl⟩
    | cons => simp at h
  | case2 search hf ih =>
    cases before with
    | nil =>
      obtain ⟨rfl, -⟩ := List.cons.inj h
      simpa using ⟨hr, hl⟩
    | cons first before =>
      obtain ⟨rfl, hrest⟩ := List.cons.inj h
      have hm := move_step graph (Bool.eq_false_iff.mpr hf)
      have hlogged := ih (hr.move hm) (hl.move hr.consistent hm rfl) hrest
      cases hp : search.pushed? graph <;> cases he : search.examined? graph <;>
        simpa [List.filterMap_cons, hp, he] using hlogged

theorem examined?_of_isFinished (hf : search.isFinished = true) :
    search.examined? graph = none := by
  obtain ⟨hp, -⟩ : search.path = [] ∧ search.starts = [] := by simpa [isFinished] using hf
  simp [examined?, hp]

theorem pushed?_of_isFinished (hf : search.isFinished = true) : search.pushed? graph = none := by
  obtain ⟨hp, hs⟩ : search.path = [] ∧ search.starts = [] := by simpa [isFinished] using hf
  simp [pushed?, step, hp, hs]

theorem Move.starts_subset {after : Search} (hm : Move graph search after) :
    after.starts ⊆ search.starts := by
  cases hm with
  | start _ hs => exact hs ▸ List.subset_cons_self _ _
  | skip _ hs => exact hs ▸ List.subset_cons_self _ _
  | _ => exact List.Subset.refl _

theorem Reached.lt_of_mem_starts (h : Reached graph search) {vertex : Nat}
    (hv : vertex ∈ search.starts) : vertex < graph.sourceCount := by
  induction h with
  | initial => exact List.mem_range.mp hv
  | move _ hm ih => exact ih (hm.starts_subset hv)

/-- The visit at a depth of the path; the source that was entered first is at depth zero. -/
def frame? (search : Search) (depth : Nat) : Option Visit :=
  search.path.reverse[depth]?

theorem getElem?_route (search : Search) (depth : Nat) :
    search.route[depth]? = (search.frame? depth).map (·.vertex) := by
  rw [route, frame?, ← List.map_reverse, List.getElem?_map]

theorem Consistent.length_path_le (h : Consistent graph search) :
    search.path.length ≤ graph.sourceCount := by
  have hroute : search.route ⊆ List.range graph.sourceCount := by
    intro vertex hv
    obtain ⟨visit, hm, rfl⟩ := mem_route.mp hv
    obtain ⟨depth, hd⟩ := h.mark_of_mem_path hm
    exact List.mem_range.mpr (h.lt_of_mark hd)
  simpa [route] using h.onPath.nodup.length_le_of_subset hroute

/-- Each index that a turn may use is in range. -/
structure Indexed (graph : BorrowGraph) (search : Search) : Prop where
  start : ∀ vertex ∈ search.starts, vertex < search.marks.length
  visit : ∀ visit ∈ search.path, visit.vertex < search.marks.length ∧
    visit.vertex < graph.edges.length ∧ visit.vertex < graph.sources.length
  target : ∀ place edge, graph.edgeAt place = some edge → edge.target < search.marks.length
  depth : ∀ vertex depth : Nat, search.marks[vertex]? = some (.onPath depth) →
    depth < search.path.length

theorem Reached.indexed (h : Reached graph search) (hg : graph.WellIndexed) :
    search.Indexed graph := by
  have hc := h.consistent
  refine ⟨fun vertex hv => ?_, fun visit hv => ?_, fun place edge he => ?_,
    fun vertex depth hm => ?_⟩
  · exact hc.marks_length ▸ h.lt_of_mem_starts hv
  · obtain ⟨depth, hd⟩ := hc.mark_of_mem_path hv
    have hlt := hc.lt_of_mark hd
    exact ⟨hc.marks_length ▸ hlt, hg.rows ▸ hlt, hlt⟩
  · exact hc.marks_length ▸ (hg.inRange place edge he).2
  · have hb := (List.getElem?_eq_some_iff.mp ((hc.onPath vertex depth).mp hm)).1
    simpa [route] using hb

/-- What holds at the head of a turn, given the turns before it. -/
structure TurnInvariant (graph : BorrowGraph) (before : List Search) (search : Search) : Prop where
  marked : ∀ vertex depth : Nat, search.marks[vertex]? = some (.onPath depth) ↔
    ∃ visit, search.frame? depth = some visit ∧ visit.vertex = vertex
  distinct : (search.path.map (·.vertex)).Nodup
  /-- A visit above another was led to by an edge that the one below has followed. -/
  linked : ∀ depth outer inner, search.frame? depth = some outer →
    search.frame? (depth + 1) = some inner → ∃ position edge, position < outer.next ∧
      graph.edgeAt (outer.vertex, position) = some edge ∧ edge.target = inner.vertex ∧
      inner.via = some edge.borrow
  done : ∀ vertex : Nat, search.marks[vertex]? = some .done → ∀ position edge,
    graph.edgeAt (vertex, position) = some edge →
      (vertex, position) ∈ before.filterMap (examined? graph)
  short : search.path.length ≤ graph.sourceCount
  indexed : search.Indexed graph

theorem Consistent.linked_frames (h : Consistent graph search) {depth : Nat} {outer inner : Visit}
    (ho : search.frame? depth = some outer) (hi : search.frame? (depth + 1) = some inner) :
    graph.Entered outer inner := by
  obtain ⟨hd, rfl⟩ := List.getElem?_eq_some_iff.mp ho
  obtain ⟨hs, rfl⟩ := List.getElem?_eq_some_iff.mp hi
  exact (List.isChain_reverse.mpr h.linked).getElem depth hs

theorem turnInvariant (hg : graph.WellIndexed) {before rest : List Search}
    (h : (Search.initial graph).turns graph = before ++ search :: rest) :
    TurnInvariant graph before search := by
  obtain ⟨hr, hl⟩ := logged_of_turns .initial (Logged.initial graph) h
  rw [List.nil_append, List.nil_append] at hl
  have hc := hr.consistent
  refine ⟨fun vertex depth => ?_, ?_, ?_, ?_, hc.length_path_le, hr.indexed hg⟩
  · rw [hc.onPath, getElem?_route, Option.map_eq_some_iff]
  · exact List.nodup_reverse.mp hc.onPath.nodup
  · intro depth outer inner ho hi
    obtain ⟨position, edge, hn, he, hv, hb⟩ := hc.linked_frames ho hi
    exact ⟨position, edge, by omega, he, hv.symm, hb⟩
  · intro vertex hd position edge he
    exact (hl.mem_examined _).mpr ⟨⟨edge, he⟩, .inl hd⟩

end Search

/-- How the search of a graph goes and how it ends. -/
structure BorrowGraph.SearchedInTurns (graph : BorrowGraph) : Prop where
  turn : ∀ before search rest,
    (Search.initial graph).turns graph = before ++ search :: rest →
      Search.TurnInvariant graph before search
  /-- There is a last turn, and what was closed by then is what the graph reports. -/
  ends : ∃ before last, (Search.initial graph).turns graph = before ++ [last] ∧
    last.isFinished = true ∧ last.closed = graph.closedCycles
  /-- Each source is pushed exactly once. -/
  pushed : (((Search.initial graph).turns graph).filterMap (Search.pushed? graph)).Perm
    (List.range graph.sourceCount)
  /-- Each edge is examined exactly once. -/
  examined : (((Search.initial graph).turns graph).filterMap (Search.examined? graph)).Perm
    graph.places

namespace BorrowGraph

variable {graph : BorrowGraph}

theorem searchedInTurns (hg : graph.WellIndexed) : graph.SearchedInTurns := by
  obtain ⟨before, hturns⟩ := Search.exists_turns_eq graph (.initial graph)
  have hinitial : Search.Reached graph (.initial graph) := .initial
  obtain ⟨hr, hf⟩ := hinitial.run
  obtain ⟨-, hl⟩ := Search.logged_of_turns hinitial (.initial graph) hturns
  have hc := hr.consistent
  rw [List.nil_append, List.nil_append] at hl
  have hdone (vertex : Nat) (hv : vertex < graph.sourceCount) := hc.done_of_isFinished hf hv
  -- the last turn is finished: it neither pushes nor examines
  have hlast {α : Type} {f : Search → Option α} (hn : f ((Search.initial graph).run graph) = none) :
      ((Search.initial graph).turns graph).filterMap f = before.filterMap f := by
    simp [hturns, hn]
  refine ⟨fun _ _ _ h => Search.turnInvariant hg h, ⟨before, _, hturns, hf, rfl⟩, ?_, ?_⟩
  · rw [hlast (Search.pushed?_of_isFinished hf)]
    refine (List.perm_ext_iff_of_nodup hl.pushed_nodup List.nodup_range).mpr fun vertex => ?_
    rw [hl.mem_pushed, List.mem_range]
    constructor
    · rintro ⟨mark, hm, -⟩
      exact hc.lt_of_mark hm
    · exact fun hv => ⟨.done, hdone vertex hv, by simp⟩
  · rw [hlast (Search.examined?_of_isFinished hf)]
    refine (List.perm_ext_iff_of_nodup hl.examined_nodup graph.nodup_places).mpr fun place => ?_
    rw [hl.mem_examined, mem_places hg.inRange]
    exact and_iff_left_of_imp fun ⟨edge, he⟩ => .inl (hdone _ (hg.inRange place edge he).1)

/-- The search enters `b` from `a`, closes a circle there, and passes over `b` when `c` leads to it
again. -/
theorem searchedInTurns_detoured :
    let graph := ofProgram Program.detoured
    let turns := (Search.initial graph).turns graph
    graph.WellIndexed ∧ (turns.filterMap (Search.pushed? graph)).Perm [0, 1, 2] ∧
      (turns.filterMap (Search.examined? graph)).Perm [(0, 0), (0, 1), (1, 0), (2, 0)] := by
  intro graph turns
  have hg := wellIndexed_ofProgram Program.detoured
  have hs := searchedInTurns hg
  exact ⟨hg, hs.pushed, hs.examined⟩

end BorrowGraph

end ProgramTree
