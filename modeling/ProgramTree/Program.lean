import ProgramTree.Declarations
import ProgramTree.NodeEquality

namespace ProgramTree

/-- Sources in order, each stored under its primary name. -/
structure Program where
  entries : List (String × Node)
deriving Inhabited

inductive ProgramError where
  | notASource (kind : Kind)
  | unnamed
  | duplicateName (name : String)
deriving DecidableEq, Repr

def ProgramError.message : ProgramError → String
  | notASource kind => s!"expected a Source node, found {kind.name}"
  | unnamed => "source has no name"
  | duplicateName name => s!"more than one source is named `{name}`"

namespace Program

def empty : Program := ⟨[]⟩

def sources (program : Program) : List Node :=
  program.entries.map (·.2)

def size (program : Program) : Nat :=
  program.entries.length

/-- The position of the source stored under the name; failing that, of the first source that
declares it. -/
def indexOf? (program : Program) (name : String) : Option Nat :=
  (program.entries.findIdx? (·.1 == name)).or (program.sources.findIdx? (·.declares name))

def get? (program : Program) (name : String) : Option Node :=
  (program.indexOf? name).bind (program.sources[·]?)

/-- Whether a node, by its number, is one of the sources. -/
def contains (program : Program) (node : Node) : Bool :=
  program.sources.any (·.same node)

/-- Puts a source where the source of the same primary name stands, or else at the end. -/
def insert (program : Program) (source : Node) : Except ProgramError Program :=
  if source.kind = .source then
    match source.primaryName? with
    | some name =>
      if program.entries.any (·.1 == name) then
        .ok ⟨program.entries.map fun entry => if entry.1 == name then (name, source) else entry⟩
      else
        .ok ⟨program.entries ++ [(name, source)]⟩
    | none => .error .unnamed
  else
    .error (.notASource source.kind)

def erase (program : Program) (name : String) : Program :=
  ⟨program.entries.filter (·.1 != name)⟩

/-- Adds a source none of whose names is declared yet. -/
def add (program : Program) (source : Node) : Except ProgramError Program :=
  match source.declaredNames.find? fun name => (program.indexOf? name).isSome with
  | some name => .error (.duplicateName name)
  | none => program.insert source

def ofSources (sources : List Node) : Except ProgramError Program :=
  sources.foldlM add empty

/-- The same sources under the same names, in any order. -/
def equal (a b : Program) : Bool :=
  a.size == b.size && a.entries.all fun (name, source) => (b.entries.lookup name).any (source == ·)

instance : BEq Program := ⟨equal⟩

end Program

end ProgramTree
