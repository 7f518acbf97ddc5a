import ProgramTree.Symbol
import ProgramTree.Decimal
import ProgramTree.CharacterClass

namespace ProgramTree

def Symbol.accepts (symbol : Symbol) (text : String) : Bool :=
  match symbol with
  | .name => isIdentifier text.toList
  | .number => isDecimal text.toList
  | .operator | .words => !text.isEmpty
  | .text => true
  | _ => symbol.canonical == some text

theorem Symbol.accepts_canonical {symbol : Symbol} {text : String}
    (h : symbol.canonical = some text) : symbol.accepts text = true := by
  cases symbol <;> simp_all [canonical, accepts]

end ProgramTree
