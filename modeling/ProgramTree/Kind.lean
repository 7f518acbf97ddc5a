namespace ProgramTree

/-- What a node is for, whatever its kind. -/
inductive Purpose where
  /-- Module structure. -/
  | source
  /-- Giving names. -/
  | bind
  /-- Declaring functions, structures and streams. -/
  | definitions
  /-- Computing something. -/
  | evaluate
  /-- Literals, and references to values. -/
  | value
  /-- Documentation, which is never evaluated. -/
  | document
deriving DecidableEq, Repr

namespace Purpose

def tag : Purpose → String
  | source => "Source"
  | bind => "Bind"
  | definitions => "Definitions"
  | evaluate => "Evaluate"
  | value => "Value"
  | document => "Document"

def all : List Purpose :=
  [source, bind, definitions, evaluate, value, document]

def ofTag? (tag : String) : Option Purpose :=
  all.find? (·.tag == tag)

def isEvaluated (purpose : Purpose) : Bool :=
  purpose != document

theorem ofTag?_tag (purpose : Purpose) : ofTag? purpose.tag = some purpose := by
  cases purpose <;> rfl

end Purpose

/-- The kinds of nodes; every leaf has the kind `token`. -/
inductive Kind where
  | token
  | source | borrow | names | block
  | functionDefinition | structureDefinition | streamDefinition
  | bind | evaluate | binaryEvaluate | input
  | reference | numberLiteral | textLiteral
  | docs | doc | words
deriving DecidableEq, Repr, Inhabited

namespace Kind

def name : Kind → String
  | token => "Token"
  | source => "Source"
  | borrow => "Borrow"
  | names => "Names"
  | block => "Block"
  | functionDefinition => "FunctionDefinition"
  | structureDefinition => "StructureDefinition"
  | streamDefinition => "StreamDefinition"
  | bind => "Bind"
  | evaluate => "Evaluate"
  | binaryEvaluate => "BinaryEvaluate"
  | input => "Input"
  | reference => "Reference"
  | numberLiteral => "NumberLiteral"
  | textLiteral => "TextLiteral"
  | docs => "Docs"
  | doc => "Doc"
  | words => "Words"

def all : List Kind :=
  [token, source, borrow, names, block, functionDefinition, structureDefinition, streamDefinition,
   bind, evaluate, binaryEvaluate, input, reference, numberLiteral, textLiteral, docs, doc, words]

def ofName? (name : String) : Option Kind :=
  all.find? (·.name == name)

/-- Kinds that declare something that can be invoked. -/
def isDefinition : Kind → Bool
  | functionDefinition | structureDefinition | streamDefinition => true
  | _ => false

/-- Kinds that may stand wherever an expression is expected. -/
def isExpression : Kind → Bool
  | block | evaluate | binaryEvaluate | reference | numberLiteral | textLiteral => true
  | kind => kind.isDefinition

/-- A token serves its parent; standing alone it counts as a value. -/
def purpose : Kind → Purpose
  | source | borrow => .source
  | names | bind | input => .bind
  | functionDefinition | structureDefinition | streamDefinition => .definitions
  | block | evaluate | binaryEvaluate => .evaluate
  | reference | numberLiteral | textLiteral | token => .value
  | docs | doc | words => .document

theorem ofName?_name (kind : Kind) : ofName? kind.name = some kind := by
  cases kind <;> rfl

theorem isExpression_of_isDefinition {kind : Kind} (h : kind.isDefinition = true) :
    kind.isExpression = true := by
  revert h
  cases kind <;> decide

end Kind

end ProgramTree
