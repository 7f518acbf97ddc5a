namespace ProgramTree

inductive Symbol where
  | name | number | text | operator
  | borrow | access | bind
  | evalOpen | evalClose | blockOpen | blockClose
  | function | type | stream
  | doc | words
  | italic | underline | light | bold | extra
deriving DecidableEq, Repr, Inhabited

namespace Symbol

def tag : Symbol → String
  | name => "Name"
  | number => "Number"
  | text => "Text"
  | operator => "Operator"
  | borrow => "Borrow"
  | access => "Access"
  | bind => "Bind"
  | evalOpen => "EvalOpen"
  | evalClose => "EvalClose"
  | blockOpen => "BlockOpen"
  | blockClose => "BlockClose"
  | function => "Function"
  | type => "Type"
  | stream => "Stream"
  | doc => "Doc"
  | words => "Words"
  | italic => "Italic"
  | underline => "Underline"
  | light => "Light"
  | bold => "Bold"
  | extra => "Extra"

def all : List Symbol :=
  [name, number, text, operator, borrow, access, bind, evalOpen, evalClose, blockOpen, blockClose,
   function, type, stream, doc, words, italic, underline, light, bold, extra]

def ofTag? (tag : String) : Option Symbol :=
  all.find? (·.tag == tag)

/-- The only text a token of this class may have; the open classes have none. -/
def canonical : Symbol → Option String
  | borrow => some "↓"
  | access => some "."
  | bind => some ":"
  | evalOpen => some "("
  | evalClose => some ")"
  | blockOpen => some "\x7b"
  | blockClose => some "\x7d"
  | function => some "ƒ"
  | type => some "•"
  | stream => some "…"
  | doc => some "¶"
  | italic => some "/"
  | underline => some "_"
  | light => some "~"
  | bold => some "*"
  | extra => some "^"
  | name | number | text | operator | words => none

/-- The delimiters that open or close formatted words. -/
def formats : List Symbol :=
  [italic, underline, light, bold, extra]

def isFormat (symbol : Symbol) : Bool :=
  formats.contains symbol

theorem ofTag?_tag (symbol : Symbol) : ofTag? symbol.tag = some symbol := by
  cases symbol <;> rfl

theorem isFormat_canonical {symbol : Symbol} (h : symbol.isFormat = true) :
    symbol.canonical.isSome = true := by
  revert h
  cases symbol <;> decide

end Symbol

/-- How a run of words is set. -/
inductive Format where
  | italic | underline | light | bold | extra
deriving DecidableEq, Repr

namespace Format

def tag : Format → String
  | italic => "Italic"
  | underline => "Underline"
  | light => "Light"
  | bold => "Bold"
  | extra => "Extra"

def ofSymbol? : Symbol → Option Format
  | .italic => some italic
  | .underline => some underline
  | .light => some light
  | .bold => some bold
  | .extra => some extra
  | _ => none

def weight : Format → Option Nat
  | light => some 300
  | bold => some 700
  | extra => some 900
  | italic | underline => none

end Format

end ProgramTree
