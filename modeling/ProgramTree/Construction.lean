import ProgramTree.ShapeCheck
import ProgramTree.Lexeme

namespace ProgramTree

/-- A computation that numbers the nodes it makes. The state is the next unused number; numbers
drawn before a failure stay used. -/
abbrev Construct (ε α : Type) := EStateM ε Nat α

def freshId {ε : Type} : Construct ε Nat :=
  fun next => .ok next (next + 1)

namespace Construct

variable {ε α β : Type} {make : Construct ε α} {then' : α → Construct ε β} {next after : Nat}

theorem bind_ok {a : α} (h : make next = .ok a after) : (make >>= then') next = then' a after := by
  change EStateM.bind make then' next = _
  rw [EStateM.bind, h]

theorem bind_error {error : ε} (h : make next = .error error after) :
    (make >>= then') next = .error error after := by
  change EStateM.bind make then' next = _
  rw [EStateM.bind, h]

end Construct

namespace Node

/-- A token whose text is not checked. -/
def rawToken {ε : Type} (symbol : Symbol) (text : String) : Construct ε Node := do
  return token (← freshId) symbol text

def mark {ε : Type} (symbol : Symbol) : Construct ε Node :=
  rawToken symbol (symbol.canonical.getD "")

def ofText (symbol : Symbol) (text : String) : Construct ShapeError Node :=
  if symbol.accepts text then rawToken symbol text else throw (.invalidToken symbol text)

theorem ofText_eq_ok_iff {symbol : Symbol} {text : String} {next : Nat} :
    ofText symbol text next = .ok (.token next symbol text) (next + 1) ↔
      symbol.accepts text = true := by
  unfold ofText
  split
  next h => exact iff_of_true rfl h
  next h => exact iff_of_false (fun hok => nomatch hok) h

theorem ofText_eq_error_iff {symbol : Symbol} {text : String} {next : Nat} :
    ofText symbol text next = .error (.invalidToken symbol text) next ↔
      symbol.accepts text = false := by
  unfold ofText
  split
  next h => exact iff_of_false (fun herror => nomatch herror) (by simp [h])
  next h => exact iff_of_true rfl (by simpa using h)

def ofSymbol (symbol : Symbol) : Construct ShapeError Node :=
  match symbol.canonical with
  | some text => rawToken symbol text
  | none => throw (.noCanonicalText symbol)

/-- A node with the given contents, listed in grammar order. Contents that do not fit the grammar
use up no number. -/
def create (kind : Kind) (contents : List (Field Node)) : Construct ShapeError Node := do
  MonadExcept.ofExcept (kind.check (kind.named contents))
  return tree (← freshId) kind (kind.named contents)

/-- A node of the same content with a number of its own; the children are shared. -/
def duplicate {ε : Type} (node : Node) : Construct ε Node := do
  let id ← freshId
  return match node with
    | token _ symbol text => token id symbol text
    | tree _ kind fields => tree id kind fields

end Node

end ProgramTree
