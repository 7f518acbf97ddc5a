import ProgramTree.Construction

namespace ProgramTree.Builders

def name (text : String) : Construct ShapeError Node :=
  Node.ofText .name text

/-- A text that opens like a word is declared as a name, any other text as an operator. -/
def declaredName (text : String) : Construct ShapeError Node :=
  match text.toList with
  | first :: _ =>
    if isAlphabetic first || first == '_' then name text else Node.ofText .operator text
  | [] => Node.ofText .operator text

def names (texts : List String) : Construct ShapeError Node := do
  Node.create .names [.list (← texts.mapM declaredName)]

def reference (text : String) : Construct ShapeError Node := do
  Node.create .reference [.one (← name text)]

def number (text : String) : Construct ShapeError Node := do
  Node.create .numberLiteral [.one (← Node.ofText .number text)]

def text (text : String) : Construct ShapeError Node := do
  Node.create .textLiteral [.one (← Node.ofText .text text)]

/-- Statements between braces. -/
def block (statements : List Node) : Construct ShapeError Node := do
  let opening ← Node.mark .blockOpen
  let closing ← Node.mark .blockClose
  Node.create .block [.optional (some opening), .list statements, .optional (some closing)]

/-- Statements without braces, as at the top level of a source. -/
def bareBlock (statements : List Node) : Construct ShapeError Node :=
  Node.create .block [.optional none, .list statements, .optional none]

/-- A parameter; a default value makes it optional. -/
def bind (text : String) (default : Option Node) : Construct ShapeError Node := do
  let colon ← default.mapM fun _ => Node.mark .bind
  Node.create .bind [.one (← names [text]), .optional colon, .optional default]

def function (text : String) (inputs : List Node) (body : Option Node) :
    Construct ShapeError Node := do
  let sign ← Node.mark .function
  let declared ← names [text]
  let opening ← Node.mark .evalOpen
  let closing ← Node.mark .evalClose
  Node.create .functionDefinition
    [.optional none, .one sign, .one declared, .one opening, .list inputs, .one closing,
     .optional body]

/-- Parentheses are written only around inputs. -/
def parentheses (inputs : List Node) : Construct ShapeError (Option Node × Option Node) :=
  if inputs.isEmpty then
    return (none, none)
  else do
    let opening ← Node.mark .evalOpen
    let closing ← Node.mark .evalClose
    return (some opening, some closing)

def structureDefinition (text : String) (inputs : List Node) (body : Option Node) :
    Construct ShapeError Node := do
  let (opening, closing) ← parentheses inputs
  let sign ← Node.mark .type
  let declared ← names [text]
  Node.create .structureDefinition
    [.optional none, .one sign, .one declared, .optional opening, .list inputs,
     .optional closing, .optional body]

def stream (text : String) (inputs : List Node) (body : Option Node) :
    Construct ShapeError Node := do
  let sign ← Node.mark .stream
  let declared ← names [text]
  let opening ← Node.mark .evalOpen
  let closing ← Node.mark .evalClose
  Node.create .streamDefinition
    [.optional none, .one sign, .one declared, .one opening, .list inputs, .one closing,
     .optional body]

def evaluate (callee : Node) (arguments : List Node) : Construct ShapeError Node := do
  let opening ← Node.mark .evalOpen
  let closing ← Node.mark .evalClose
  Node.create .evaluate [.one callee, .one opening, .list arguments, .one closing]

def binary (left : Node) (operator : String) (right : Node) : Construct ShapeError Node := do
  let sign ← Node.ofText .operator operator
  Node.create .binaryEvaluate [.one left, .one sign, .one right]

def input (text : String) (value : Node) : Construct ShapeError Node := do
  let label ← name text
  let colon ← Node.mark .bind
  Node.create .input [.one label, .one colon, .one value]

def borrow (source : String) (member : Option String) : Construct ShapeError Node := do
  let sign ← Node.mark .borrow
  let origin ← name source
  match member with
  | none => Node.create .borrow [.one sign, .one origin, .optional none, .optional none]
  | some text =>
    let dot ← Node.mark .access
    let label ← name text
    Node.create .borrow [.one sign, .one origin, .optional (some dot), .optional (some label)]

def source (text : String) (borrows statements : List Node) : Construct ShapeError Node := do
  let declared ← names [text]
  let body ← bareBlock statements
  Node.create .source [.one declared, .list borrows, .one body]

def words (text : String) : Construct ShapeError Node := do
  let prose ← Node.ofText .words text
  Node.create .words [.optional none, .list [prose], .optional none]

/-- Prose that stands in for what has not been written yet. -/
def placeholder : Construct ShapeError Node :=
  words "…"

/-- Segments between two format delimiters. -/
def formatted (format : Symbol) (segments : List Node) : Construct ShapeError Node := do
  let opening ← Node.ofSymbol format
  let closing ← Node.ofSymbol format
  Node.create .words [.optional (some opening), .list segments, .optional (some closing)]

def doc (content : List Node) : Construct ShapeError Node := do
  let opening ← Node.mark .doc
  let closing ← Node.mark .doc
  Node.create .doc [.one opening, .list content, .optional (some closing)]

def docs (content : List Node) : Construct ShapeError Node :=
  Node.create .docs [.list content]

end ProgramTree.Builders
