namespace ProgramTree

/-- A nested record as it is shown to a developer. -/
inductive Outline where
  | atom (text : String)
  /-- A name before parts in parentheses. -/
  | call (name : String) (parts : List Outline)
  /-- A name before named parts in braces. -/
  | record (name : String) (parts : List (String × Outline))
  | sequence (parts : List Outline)

namespace Outline

def option (content : Option Outline) : Outline :=
  match content with
  | none => atom "None"
  | some outline => call "Some" [outline]

def bool (value : Bool) : Outline :=
  atom (if value then "true" else "false")

mutual

/-- All on one line. -/
def oneLine : Outline → String
  | atom text => text
  | call name parts => name ++ "(" ++ ", ".intercalate (oneLineParts parts) ++ ")"
  | record name parts => name ++ " \x7b " ++ ", ".intercalate (oneLineNamed parts) ++ " \x7d"
  | sequence parts => "[" ++ ", ".intercalate (oneLineParts parts) ++ "]"

def oneLineParts : List Outline → List String
  | [] => []
  | part :: rest => oneLine part :: oneLineParts rest

def oneLineNamed : List (String × Outline) → List String
  | [] => []
  | (name, part) :: rest => (name ++ ": " ++ oneLine part) :: oneLineNamed rest

end

/-- Lines between an opening and a closing line, indented and each ended by a comma. -/
def framed (opening closing margin : String) (lines : List String) : String :=
  if lines.isEmpty then
    opening ++ closing
  else
    opening ++ "\n" ++ String.join (lines.map fun line => margin ++ "    " ++ line ++ ",\n")
      ++ margin ++ closing

mutual

/-- One part a line, each level of parts four columns further in. -/
def indented (margin : String) : Outline → String
  | atom text => text
  | call name parts => framed (name ++ "(") ")" margin (indentedParts (margin ++ "    ") parts)
  | record name parts =>
    framed (name ++ " \x7b") "\x7d" margin (indentedNamed (margin ++ "    ") parts)
  | sequence parts => framed "[" "]" margin (indentedParts (margin ++ "    ") parts)

def indentedParts (margin : String) : List Outline → List String
  | [] => []
  | part :: rest => indented margin part :: indentedParts margin rest

def indentedNamed (margin : String) : List (String × Outline) → List String
  | [] => []
  | (name, part) :: rest => (name ++ ": " ++ indented margin part) :: indentedNamed margin rest

end

end Outline

end ProgramTree
