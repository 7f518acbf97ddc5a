import ProgramTree.CycleSearch
import ProgramTree.Conflict

namespace ProgramTree

namespace BorrowGraph

/-- Reports a circle on the borrow that leads from its first source to the next one; a circle of
one source has only the closing borrow. -/
def conflictOf (graph : BorrowGraph) (closed : ClosedCycle) : Conflict :=
  let borrow := ((closed.circle[1]?).bind (·.via)).getD closed.edge.borrow
  .borrowCycle borrow closed.edge.borrow
    (closed.circle.filterMap fun visit => graph.sources[visit.vertex]?)

def cycleConflicts (graph : BorrowGraph) : List Conflict :=
  graph.closedCycles.map graph.conflictOf

end BorrowGraph

def Program.borrowCycles (program : Program) : List Conflict :=
  (BorrowGraph.ofProgram program).cycleConflicts

end ProgramTree
