import ProgramTree.IdentifierStart
import ProgramTree.IdentifierContinue
import ProgramTree.UnalphabeticStarts
import ProgramTree.AlphabeticMarks
import ProgramTree.GraphemeExtenders
import ProgramTree.HiddenCharacters

namespace ProgramTree

def inRanges (ranges : List (Nat × Nat)) (c : Char) : Bool :=
  ranges.any fun range => range.1 ≤ c.toNat && c.toNat ≤ range.2

def isIdentifierStart (c : Char) : Bool :=
  inRanges identifierStartRanges c

def isIdentifierContinue (c : Char) : Bool :=
  isIdentifierStart c || inRanges identifierTailRanges c

/-- Most of what may open an identifier is alphabetic, and so are some marks that may only continue
one. -/
def isAlphabetic (c : Char) : Bool :=
  (isIdentifierStart c && !inRanges unalphabeticStartRanges c) || inRanges alphabeticMarkRanges c

/-- Characters that a quotation cannot show as they are. -/
def needsEscape (c : Char) : Bool :=
  inRanges graphemeExtenderRanges c || inRanges hiddenRanges c

/-- Identifiers open with an underscore or an identifier start. -/
def isIdentifier : List Char → Bool
  | [] => false
  | first :: rest => (first == '_' || isIdentifierStart first) && rest.all isIdentifierContinue

end ProgramTree
