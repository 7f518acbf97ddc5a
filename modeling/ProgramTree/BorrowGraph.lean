import ProgramTree.Program

namespace ProgramTree

/-- A borrow and the position of the source that it names. -/
structure BorrowEdge where
  borrow : Node
  target : Nat
deriving Inhabited

/-- Which sources borrow from which. A source has its edges in the order of its borrows; a borrow
of an unknown source makes no edge. -/
structure BorrowGraph where
  sources : List Node
  edges : List (List BorrowEdge)
deriving Inhabited

namespace BorrowGraph

def edgesOf (program : Program) (source : Node) : List BorrowEdge :=
  source.borrows.filterMap fun borrow =>
    (borrow.borrowedSource?.bind program.indexOf?).map (⟨borrow, ·⟩)

def ofProgram (program : Program) : BorrowGraph where
  sources := program.sources
  edges := program.sources.map (edgesOf program)

def sourceCount (graph : BorrowGraph) : Nat :=
  graph.sources.length

def edgesFrom (graph : BorrowGraph) (index : Nat) : List BorrowEdge :=
  graph.edges[index]?.getD []

def edgeCount (graph : BorrowGraph) : Nat :=
  total List.length graph.edges

end BorrowGraph

end ProgramTree
