import Mathlib.Order.RelClasses
import ProgramTree.Proofs.CycleReports
import ProgramTree.Proofs.ExploredEdges

namespace ProgramTree

namespace BorrowGraph

/-- The places of the edges that closed a circle. -/
def closingPlaces (graph : BorrowGraph) : List (Nat × Nat) :=
  graph.closedCycles.filterMap (·.place?)

def without (graph : BorrowGraph) (places : List (Nat × Nat)) : BorrowGraph where
  sources := graph.sources
  edges := graph.edges.mapIdx fun source edges =>
    (edges.zipIdx.filter fun (_, position) => !places.contains (source, position)).map (·.1)

/-- A way through the graph from one source to another, as the places of the edges that it takes. -/
inductive Way (graph : BorrowGraph) : Nat → List (Nat × Nat) → Nat → Prop
  | nil (source : Nat) : Way graph source [] source
  | cons {source position target : Nat} {edge : BorrowEdge} {places : List (Nat × Nat)}
      (he : graph.edgeAt (source, position) = some edge) (hw : Way graph edge.target places target) :
      Way graph source ((source, position) :: places) target

theorem leads_without {graph : BorrowGraph} {places : List (Nat × Nat)} {source target : Nat} :
    (graph.without places).Leads source target ↔ graph.LeadsPast places source target := by
  have hf : (graph.without places).edgesFrom source =
      ((graph.edgesFrom source).zipIdx.filter fun (_, position) =>
        !places.contains (source, position)).map (·.1) := by
    unfold edgesFrom without
    rw [List.getElem?_mapIdx]
    cases graph.edges[source]? <;> rfl
  unfold Leads LeadsPast edgeAt
  rw [hf]
  constructor
  · rintro ⟨_, he, ht⟩
    obtain ⟨⟨edge, position⟩, hm, rfl⟩ := List.mem_map.mp he
    obtain ⟨hz, hn⟩ := List.mem_filter.mp hm
    exact ⟨position, edge, by simpa using hn, List.mem_zipIdx_iff_getElem?.mp hz, ht⟩
  · rintro ⟨position, edge, hn, he, ht⟩
    refine ⟨edge, List.mem_map.mpr ⟨(edge, position), List.mem_filter.mpr ⟨?_, ?_⟩, rfl⟩, ht⟩
    · exact List.mem_zipIdx_iff_getElem?.mpr he
    · simpa using hn

theorem leads_iff {graph : BorrowGraph} {source target : Nat} :
    graph.Leads source target ↔ graph.LeadsPast [] source target := by
  unfold Leads LeadsPast edgeAt
  constructor
  · rintro ⟨edge, he, ht⟩
    obtain ⟨position, hp⟩ := List.mem_iff_getElem?.mp he
    exact ⟨position, edge, by simp, hp, ht⟩
  · rintro ⟨position, edge, _, he, ht⟩
    exact ⟨edge, List.mem_of_getElem? he, ht⟩

theorem Way.leadsPast {graph : BorrowGraph} {removed places : List (Nat × Nat)}
    {source target : Nat} (h : graph.Way source places target) (hne : places ≠ [])
    (hp : ∀ place ∈ places, place ∉ removed) :
    Relation.TransGen (graph.LeadsPast removed) source target := by
  induction h with
  | nil => exact absurd rfl hne
  | @cons source position target edge rest he hw ih =>
    have hs : graph.LeadsPast removed source edge.target :=
      ⟨position, edge, hp _ List.mem_cons_self, he, rfl⟩
    cases rest with
    | nil =>
      cases hw
      exact .single hs
    | cons place rest =>
      exact .head hs (ih (by simp) fun other ho => hp other (List.mem_cons_of_mem _ ho))

variable {graph : BorrowGraph}

theorem reached_run (graph : BorrowGraph) :
    Search.Reached graph ((Search.initial graph).run graph) ∧
      ((Search.initial graph).run graph).isFinished = true :=
  Search.Reached.initial.run

/-- Past the closing edges there is no endless way. -/
theorem wellFounded_leadsPast (hr : graph.InRange) :
    WellFounded fun target source => graph.LeadsPast graph.closingPlaces source target := by
  obtain ⟨hreached, hf⟩ := graph.reached_run
  refine ⟨fun source => ?_⟩
  rcases Nat.lt_or_ge source graph.sourceCount with hs | hs
  · have hd := hreached.consistent.done_of_isFinished hf hs
    exact (hreached.explored hr).grounded source hd
  · refine Acc.intro source fun target ⟨position, edge, _, he, _⟩ => ?_
    exact absurd (hr _ _ he).1 (Nat.not_lt.mpr hs)

theorem acyclic_leadsPast (hr : graph.InRange) (source : Nat) :
    ¬ Relation.TransGen (graph.LeadsPast graph.closingPlaces) source source := by
  intro h
  have hs := Relation.transGen_swap.mp h
  exact (wellFounded_leadsPast hr).transGen.asymmetric source source hs hs

theorem mem_closedCycles_sound {closed : ClosedCycle} (h : closed ∈ graph.closedCycles) :
    closed.Sound graph :=
  graph.reached_run.1.sound closed h

theorem Entered.leads {outer inner : Visit} (h : graph.Entered outer inner) :
    graph.Leads outer.vertex inner.vertex := by
  obtain ⟨position, edge, _, he, hv, _⟩ := h
  exact ⟨edge, List.mem_of_getElem? he, hv.symm⟩

theorem cycle_of_sound {closed : ClosedCycle} (h : closed.Sound graph) :
    Relation.TransGen graph.Leads closed.edge.target closed.edge.target := by
  obtain ⟨first, hf, ht⟩ := h.first
  obtain ⟨last, position, hl, _, he⟩ := h.last
  have hne : closed.circle ≠ [] := by
    intro hnil
    simp [hnil] at hf
  have hreach := List.relationReflTransGen_of_exists_isChain closed.circle h.linked hne
  rw [List.head_eq_iff_head?_eq_some hne |>.mpr hf,
    List.getLast_eq_iff_getLast?_eq_some hne |>.mpr hl] at hreach
  have hlead : Relation.ReflTransGen graph.Leads first.vertex last.vertex :=
    hreach.lift (·.vertex) fun _ _ => Entered.leads
  have hback : graph.Leads last.vertex closed.edge.target :=
    ⟨closed.edge, List.mem_of_getElem? he, rfl⟩
  exact ht ▸ Relation.TransGen.tail' hlead (ht ▸ hback)

theorem closedCycles_eq_nil_iff (hr : graph.InRange) :
    graph.closedCycles = [] ↔ graph.Acyclic := by
  constructor
  · intro hn source h
    have hc : graph.closingPlaces = [] := by simp [closingPlaces, hn]
    refine acyclic_leadsPast hr source ?_
    rw [hc]
    exact h.lift id fun _ _ => leads_iff.mp
  · intro h
    refine List.eq_nil_iff_forall_not_mem.mpr fun closed hc => ?_
    exact h closed.edge.target (cycle_of_sound (mem_closedCycles_sound hc))

/-- Every way back to its own source takes an edge that closed a circle. -/
theorem Way.exists_mem_closingPlaces (hr : graph.InRange) {places : List (Nat × Nat)}
    {source : Nat} (hw : graph.Way source places source) (hne : places ≠ []) :
    ∃ place ∈ places, place ∈ graph.closingPlaces := by
  by_contra hn
  have hp : ∀ place ∈ places, place ∉ graph.closingPlaces :=
    fun place hm hc => hn ⟨place, hm, hc⟩
  exact acyclic_leadsPast hr source (hw.leadsPast hne hp)

theorem closingPlaces_nodup (hr : graph.InRange) : graph.closingPlaces.Nodup :=
  (graph.reached_run.1.explored hr).places_nodup

/-- A conflict reports the circle that the edge at a place closes: the edge is a borrow of the last
source of the circle and leads to its first source. -/
def ReportedAt (graph : BorrowGraph) (conflict : Conflict) (place : Nat × Nat) : Prop :=
  ∃ borrow edge cycle, conflict = .borrowCycle borrow edge.borrow cycle ∧
    graph.edgeAt place = some edge ∧
    cycle.getLast? = graph.sources[place.1]? ∧ cycle.head? = graph.sources[edge.target]? ∧
    cycle ≠ []

theorem reportedAt_conflictOf {closed : ClosedCycle} (h : closed.Sound graph) :
    ∃ place, closed.place? = some place ∧ graph.ReportedAt (graph.conflictOf closed) place := by
  obtain ⟨first, hf, hft⟩ := head?_circleSources h
  obtain ⟨last, place, hl, hp, he, hlp⟩ := getLast?_circleSources h
  exact ⟨place, hp, _, closed.edge, graph.circleSources closed, rfl, he, hl.trans hlp.symm,
    hf.trans hft.symm, fun hn => by simp [hn] at hf⟩

theorem forall₂_closingPlaces (graph : BorrowGraph) :
    List.Forall₂ graph.ReportedAt graph.cycleConflicts graph.closingPlaces := by
  rw [cycleConflicts, List.forall₂_map_left_iff]
  exact forall₂_filterMap fun closed hc => reportedAt_conflictOf (mem_closedCycles_sound hc)

end BorrowGraph

/-- Deleting the edges that are reported as closing leaves no cycle of borrows, every cycle of
borrows takes one of them, and each of them is reported once. -/
theorem Program.borrowCycles_cover (program : Program) :
    let graph := BorrowGraph.ofProgram program
    (graph.without graph.closingPlaces).Acyclic ∧
    (∀ source places, places ≠ [] → graph.Way source places source →
      ∃ place ∈ places, place ∈ graph.closingPlaces) ∧
    List.Forall₂ graph.ReportedAt program.borrowCycles graph.closingPlaces ∧
    graph.closingPlaces.Nodup ∧
    (program.borrowCycles = [] ↔ graph.Acyclic) := by
  intro graph
  have hr : graph.InRange := BorrowGraph.inRange_ofProgram program
  refine ⟨fun source h => ?_, fun source places hne hw => hw.exists_mem_closingPlaces hr hne,
    graph.forall₂_closingPlaces, BorrowGraph.closingPlaces_nodup hr, ?_⟩
  · exact BorrowGraph.acyclic_leadsPast hr source
      (h.lift id fun _ _ => BorrowGraph.leads_without.mp)
  · rw [← BorrowGraph.closedCycles_eq_nil_iff hr]
    exact List.map_eq_nil_iff

end ProgramTree
