import ProgramTree.Node

namespace ProgramTree

/-- What a field may hold. -/
inductive Permit where
  | kind (kind : Kind)
  | symbol (symbol : Symbol)
  | expression
  | definition
deriving DecidableEq, Repr

namespace Permit

def admits (permit : Permit) (node : Node) : Bool :=
  match permit with
  | kind k => node.kind == k
  | symbol s => node.isSymbol s
  | expression => node.kind.isExpression
  | definition => node.kind.isDefinition

def text : Permit → String
  | kind k => k.name
  | symbol s => s.tag
  | expression => "expression"
  | definition => "definition"

/-- The narrowest permit that admits a node. -/
def ofNode (node : Node) : Permit :=
  match node.symbol? with
  | some s => .symbol s
  | none => .kind node.kind

end Permit

/-- The token that stands in for the absent half of a pair. -/
inductive Fallback where
  | token (symbol : Symbol)
  /-- The format of the half that is present. -/
  | matchingFormat
deriving DecidableEq, Repr

/-- A format delimiter is matched by its own kind, any other node by an italic delimiter. -/
def Fallback.symbolFor (fallback : Fallback) (present : Node) : Symbol :=
  match fallback with
  | .token symbol => symbol
  | .matchingFormat =>
    match present.symbol? with
    | some symbol => if symbol.isFormat then symbol else .italic
    | none => .italic

/-- The classes of the tokens that may stand in. -/
def Fallback.symbols : Fallback → List Symbol
  | token symbol => [symbol]
  | matchingFormat => Symbol.formats

theorem Fallback.symbolFor_mem (fallback : Fallback) (present : Node) :
    fallback.symbolFor present ∈ fallback.symbols := by
  cases fallback with
  | token symbol => simp [symbolFor, symbols]
  | matchingFormat =>
    simp only [symbolFor, symbols]
    split
    next symbol _ =>
      split
      next hs => exact List.contains_iff_mem.mp hs
      next => decide
    next => decide

theorem Fallback.symbolFor_matchingFormat {present : Node} {symbol : Symbol}
    (h : present.symbol? = some symbol) (hf : symbol ∈ Symbol.formats) :
    matchingFormat.symbolFor present = symbol := by
  have hformat : symbol.isFormat = true := List.contains_iff_mem.mpr hf
  simp [symbolFor, h, hformat]

/-- Two optional fields that are present together or absent together. A field without a fallback
cannot be invented, so removing it releases its sibling. -/
structure Pair where
  sibling : String
  fallback : Option Fallback
deriving DecidableEq, Repr

inductive Shape where
  | one (permits : List Permit)
  | optional (permits : List Permit) (pair : Option Pair)
  | list (nonEmpty : Bool) (permits : List Permit)
deriving DecidableEq, Repr

inductive Arity where
  | single | optional | list
deriving DecidableEq, Repr

def Arity.text : Arity → String
  | single => "single"
  | optional => "optional"
  | list => "list"

namespace Shape

def permits : Shape → List Permit
  | one permits | optional permits _ | list _ permits => permits

def pair? : Shape → Option Pair
  | optional _ pair => pair
  | _ => none

def arity : Shape → Arity
  | one _ => .single
  | optional .. => .optional
  | list .. => .list

end Shape

structure FieldRule where
  name : String
  shape : Shape
deriving DecidableEq, Repr

namespace FieldRule

def one (name : String) (permits : List Permit) : FieldRule :=
  ⟨name, .one permits⟩

def optional (name : String) (permits : List Permit) : FieldRule :=
  ⟨name, .optional permits none⟩

def paired (name : String) (permits : List Permit) (sibling : String) (fallback : Fallback) :
    FieldRule :=
  ⟨name, .optional permits (some ⟨sibling, some fallback⟩)⟩

/-- A paired field that nothing can stand in for. -/
def bound (name : String) (permits : List Permit) (sibling : String) : FieldRule :=
  ⟨name, .optional permits (some ⟨sibling, none⟩)⟩

def list (name : String) (permits : List Permit) : FieldRule :=
  ⟨name, .list false permits⟩

def nonEmptyList (name : String) (permits : List Permit) : FieldRule :=
  ⟨name, .list true permits⟩

end FieldRule

namespace Kind

def grammar : Kind → List FieldRule
  | token => []
  | source =>
    [.one "names" [.kind names],
     .list "borrows" [.kind borrow],
     .one "body" [.kind block]]
  | borrow =>
    [.one "borrow" [.symbol .borrow],
     .one "source" [.symbol .name],
     .paired "dot" [.symbol .access] "name" (.token .access),
     .bound "name" [.symbol .name] "dot"]
  | names =>
    [.nonEmptyList "names" [.symbol .name, .symbol .operator]]
  | block =>
    [.paired "open" [.symbol .blockOpen] "close" (.token .blockOpen),
     .list "statements" [.expression, .kind bind],
     .paired "close" [.symbol .blockClose] "open" (.token .blockClose)]
  | functionDefinition =>
    [.optional "docs" [.kind docs],
     .one "fun" [.symbol .function],
     .one "names" [.kind names],
     .one "open" [.symbol .evalOpen],
     .list "inputs" [.kind bind],
     .one "close" [.symbol .evalClose],
     .optional "expression" [.expression]]
  | structureDefinition =>
    [.optional "docs" [.kind docs],
     .one "kind" [.symbol .type],
     .one "names" [.kind names],
     .paired "open" [.symbol .evalOpen] "close" (.token .evalOpen),
     .list "inputs" [.kind bind],
     .paired "close" [.symbol .evalClose] "open" (.token .evalClose),
     .optional "expression" [.kind block]]
  | streamDefinition =>
    [.optional "docs" [.kind docs],
     .one "stream" [.symbol .stream],
     .one "names" [.kind names],
     .one "open" [.symbol .evalOpen],
     .list "inputs" [.kind bind],
     .one "close" [.symbol .evalClose],
     .optional "expression" [.expression]]
  | bind =>
    [.one "names" [.kind names],
     .paired "colon" [.symbol .bind] "value" (.token .bind),
     .bound "value" [.expression] "colon"]
  | evaluate =>
    [.one "fun" [.expression],
     .one "open" [.symbol .evalOpen],
     .list "inputs" [.expression, .kind input],
     .one "close" [.symbol .evalClose]]
  | binaryEvaluate =>
    [.one "left" [.expression],
     .one "operator" [.symbol .operator],
     .one "right" [.expression]]
  | input =>
    [.one "name" [.symbol .name],
     .one "colon" [.symbol .bind],
     .one "value" [.expression]]
  | reference =>
    [.one "name" [.symbol .name]]
  | numberLiteral =>
    [.one "number" [.symbol .number]]
  | textLiteral =>
    [.one "text" [.symbol .text]]
  | docs =>
    [.nonEmptyList "docs" [.kind doc]]
  | doc =>
    [.one "open" [.symbol .doc],
     .list "content" [.kind words],
     .optional "close" [.symbol .doc]]
  | words =>
    [.paired "open" (Symbol.formats.map .symbol) "close" .matchingFormat,
     .nonEmptyList "segments" [.kind words, .symbol .words, .kind reference],
     .paired "close" (Symbol.formats.map .symbol) "open" .matchingFormat]

def rule? (kind : Kind) (name : String) : Option FieldRule :=
  kind.grammar.find? (·.name == name)

theorem grammar_names_nodup (kind : Kind) : (kind.grammar.map (·.name)).Nodup := by
  cases kind <;> decide

/-- The sibling of a paired field names it back. -/
theorem pair_symmetric (kind : Kind) :
    ∀ rule ∈ kind.grammar, ∀ pair ∈ rule.shape.pair?,
      ∃ back ∈ (kind.rule? pair.sibling).bind (·.shape.pair?), back.sibling = rule.name := by
  cases kind <;> decide

/-- What stands in for a field has a canonical text and is permitted there. -/
theorem fallback_fits (kind : Kind) :
    ∀ rule ∈ kind.grammar, ∀ pair ∈ rule.shape.pair?, ∀ fallback ∈ pair.fallback,
      ∀ symbol ∈ fallback.symbols,
        symbol.canonical.isSome = true ∧ .symbol symbol ∈ rule.shape.permits := by
  cases kind <;> decide

end Kind

end ProgramTree
