import ProgramTree.Node

namespace ProgramTree.Node

def nameTexts (names : Node) : List String :=
  (names.elements "names").filterMap text?

def namesNode? (node : Node) : Option Node :=
  match node.kind with
  | .source | .functionDefinition | .structureDefinition | .streamDefinition | .bind =>
    node.single? "names"
  | _ => none

def declaredNames? (node : Node) : Option (List String) :=
  (node.namesNode?.filter (·.kind == .names)).map nameTexts

def declaredNames (node : Node) : List String :=
  node.declaredNames?.getD []

def declares (node : Node) (name : String) : Bool :=
  node.declaredNames.contains name

def primaryName? (node : Node) : Option String :=
  node.declaredNames.head?

def declaredInputs (node : Node) : List Node :=
  if node.kind.isDefinition then node.elements "inputs" else []

def statements (node : Node) : List Node :=
  if node.kind = .block then node.elements "statements" else []

def borrows (node : Node) : List Node :=
  if node.kind = .source then node.elements "borrows" else []

def topLevel (node : Node) : List Node :=
  if node.kind = .source then ((node.single? "body").map statements).getD [] else []

/-- The name of the source that a borrow borrows from. -/
def borrowedSource? (node : Node) : Option String :=
  if node.kind = .borrow then (node.single? "source").bind text? else none

def borrowedMember? (node : Node) : Option String :=
  if node.kind = .borrow then (node.single? "name").bind text? else none

def isAbstractFunction (node : Node) : Bool :=
  node.kind == .functionDefinition && (node.single? "expression").isNone

def abstractFunctions (node : Node) : List Node :=
  if node.kind = .structureDefinition then
    (((node.single? "expression").map statements).getD []).filter isAbstractFunction
  else
    []

/-- An interface is a structure that declares an abstract function. -/
def isInterface (node : Node) : Bool :=
  !node.abstractFunctions.isEmpty

/-- A parameter without a default value must be supplied by every caller. -/
def isRequired (node : Node) : Bool :=
  node.kind == .bind && (node.single? "value").isNone

def inputName? (node : Node) : Option String :=
  if node.kind = .input then (node.single? "name").bind text? else none

end ProgramTree.Node
