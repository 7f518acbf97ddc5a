import ProgramTree.Explanation
import ProgramTree.Validation
import ProgramTree.BorrowCycles

namespace ProgramTree

/-- Conflicts in the order in which they were found. -/
structure Findings where
  conflicts : List Conflict
deriving Inhabited

namespace Findings

def empty : Findings := ⟨[]⟩

def add (findings : Findings) (conflict : Conflict) : Findings :=
  ⟨findings.conflicts ++ [conflict]⟩

def append (findings : Findings) (conflicts : List Conflict) : Findings :=
  ⟨findings.conflicts ++ conflicts⟩

/-- The conflicts that have a node at one of their sites. -/
def involving (findings : Findings) (node : Node) : List Conflict :=
  findings.conflicts.filter (·.involves node)

def size (findings : Findings) : Nat :=
  findings.conflicts.length

def minorCount (findings : Findings) : Nat :=
  findings.conflicts.countP (·.isMinor)

def blockingCount (findings : Findings) : Nat :=
  findings.conflicts.countP (!·.isMinor)

def hasBlocking (findings : Findings) : Bool :=
  findings.conflicts.any (!·.isMinor)

/-- A program may be run when nothing blocks it. -/
def isExecutable (findings : Findings) : Bool :=
  !findings.hasBlocking

end Findings

/-- The conflicts of every source in program order, then the borrow cycles. -/
def Program.analyze (program : Program) : Findings :=
  let globals := Globals.ofProgram program
  ⟨program.sources.flatMap globals.sourceConflicts ++ program.borrowCycles⟩

end ProgramTree
