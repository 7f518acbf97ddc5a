import ProgramTree.Node

namespace ProgramTree

/-- Whether a text stands at some place within another. -/
def standsIn (text : List Char) : List Char → Bool
  | [] => text.isEmpty
  | c :: rest => text.isPrefixOf (c :: rest) || standsIn text rest

theorem standsIn_iff {text within : List Char} : standsIn text within = true ↔ text <:+: within := by
  induction within with
  | nil => simp [standsIn]
  | cons c rest ih => simp [standsIn, ih, List.infix_cons_iff]

namespace Node

def format? (words : Node) : Option Format :=
  ((words.single? "open").bind symbol?).bind Format.ofSymbol?

/-- The format of formatted words, then the formats of a single run of words that fills them. -/
def formats (words : Node) : List Format :=
  match words.format? with
  | none => []
  | some format =>
    format :: match (words.elements "segments").attach with
      | [⟨only, _⟩] => if only.kind = .words then formats only else []
      | _ => []
termination_by sizeOf words
decreasing_by exact sizeOf_lt_of_mem_children (mem_children_of_elements ‹_›)

/-- Whether the prose at any depth holds the text; references and delimiters are not prose. -/
def containsText (words : Node) (text : String) : Bool :=
  (words.elements "segments").attach.any fun
    | ⟨token _ symbol prose, _⟩ => symbol == .words && standsIn text.toList prose.toList
    | ⟨tree id kind fields, _⟩ => kind == .words && containsText (tree id kind fields) text
termination_by sizeOf words
decreasing_by exact sizeOf_lt_of_mem_children (mem_children_of_elements ‹_›)

end Node

end ProgramTree
