import Mathlib.Logic.Relation
import ProgramTree.BorrowGraph
import ProgramTree.Proofs.SourceLookup

namespace ProgramTree

namespace BorrowGraph

def edgeAt (graph : BorrowGraph) (place : Nat × Nat) : Option BorrowEdge :=
  (graph.edgesFrom place.1)[place.2]?

/-- Every edge starts from a source of the graph and leads to one. -/
def InRange (graph : BorrowGraph) : Prop :=
  ∀ place edge, graph.edgeAt place = some edge →
    place.1 < graph.sourceCount ∧ edge.target < graph.sourceCount

def Leads (graph : BorrowGraph) (source target : Nat) : Prop :=
  ∃ edge ∈ graph.edgesFrom source, edge.target = target

def Acyclic (graph : BorrowGraph) : Prop :=
  ∀ source, ¬ Relation.TransGen graph.Leads source source

theorem mem_edgesFrom_ofProgram {program : Program} {index : Nat} {edge : BorrowEdge} :
    edge ∈ (ofProgram program).edgesFrom index ↔
      ∃ source name, program.sources[index]? = some source ∧ edge.borrow ∈ source.borrows ∧
        edge.borrow.borrowedSource? = some name ∧ program.indexOf? name = some edge.target := by
  unfold edgesFrom ofProgram
  rw [List.getElem?_map]
  cases hs : program.sources[index]? with
  | none => simp
  | some source =>
    simp only [Option.map_some, Option.getD_some, edgesOf, List.mem_filterMap,
      Option.map_eq_some_iff, Option.bind_eq_some_iff]
    constructor
    · rintro ⟨borrow, hb, target, ⟨name, hn, ht⟩, rfl⟩
      exact ⟨source, name, rfl, hb, hn, ht⟩
    · rintro ⟨_, name, he, hb, hn, ht⟩
      cases he
      exact ⟨edge.borrow, hb, edge.target, ⟨name, hn, ht⟩, rfl⟩

theorem inRange_ofProgram (program : Program) : (ofProgram program).InRange := by
  intro place edge he
  obtain ⟨source, name, hs, _, _, ht⟩ := mem_edgesFrom_ofProgram.mp (List.mem_of_getElem? he)
  exact ⟨(List.getElem?_eq_some_iff.mp hs).1, Program.indexOf?_lt ht⟩

end BorrowGraph

end ProgramTree
