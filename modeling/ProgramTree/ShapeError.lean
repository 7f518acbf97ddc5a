import ProgramTree.Grammar
import ProgramTree.Quotation

namespace ProgramTree

/-- Why fields or a token text do not fit their grammar. -/
inductive ShapeError where
  | notPermitted (kind : Kind) (field : String) (permits : List Permit) (found : Permit)
  | emptyList (kind : Kind) (field : String)
  | missing (kind : Kind) (field : String)
  | unpaired (kind : Kind) (field sibling : String)
  | fieldArity (kind : Kind) (field : String) (expected : Arity)
  | fieldCount (kind : Kind) (expected found : Nat)
  | invalidToken (symbol : Symbol) (text : String)
  | noCanonicalText (symbol : Symbol)
deriving DecidableEq, Repr

def ShapeError.message : ShapeError → String
  | notPermitted kind field permits found =>
    let expected := " | ".intercalate (permits.map Permit.text)
    s!"{kind.name}.{field}: expected {expected}, found {found.text}"
  | emptyList kind field => s!"{kind.name}.{field}: list must not be empty"
  | missing kind field => s!"{kind.name}.{field}: required node is missing"
  | unpaired kind field sibling =>
    s!"{kind.name}.{field}: must be present when `{sibling}` is present"
  | fieldArity kind field expected => s!"{kind.name}.{field}: expected a {expected.text} field"
  | fieldCount kind expected found =>
    s!"{kind.name}: expected {expected} fields, found {found}"
  | invalidToken symbol text => s!"invalid {symbol.tag} token text {quoted text}"
  | noCanonicalText symbol => s!"{symbol.tag} has no canonical text"

end ProgramTree
