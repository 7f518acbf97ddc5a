import ProgramTree.Conflict
import ProgramTree.Globals

namespace ProgramTree

/-- How a node takes part in a conflict. -/
inductive Role where
  /-- The conflict is reported on it. -/
  | primary
  /-- It is shown beside the primary node. -/
  | secondary
deriving DecidableEq, Repr

namespace Role

def tag : Role → String
  | primary => "Primary"
  | secondary => "Secondary"

def ofTag? (tag : String) : Option Role :=
  [primary, secondary].find? (·.tag == tag)

def word : Role → String
  | primary => "primary"
  | secondary => "secondary"

end Role

/-- Names the text that explains one part of a conflict. -/
structure Template where
  owner : Kind
  conflict : String
  role : Role
deriving DecidableEq, Repr

def Template.path (template : Template) : String :=
  s!"node.{template.owner.name}.conflict.{template.conflict}.{template.role.word}"

inductive TemplateInput where
  | node (node : Node)
  | name (name : String)
  | count (count : Nat)

/-- A node of a conflict and how its part is explained. -/
structure Site where
  node : Node
  template : Template
  inputs : List TemplateInput

/-- Turns the explanation of a site into text; whoever holds the texts supplies the renderer. -/
def Site.explain (site : Site) (render : Template → List TemplateInput → Globals → String)
    (globals : Globals) : String :=
  render site.template site.inputs globals

namespace Conflict

/-- The kind under which a conflict is explained. -/
def owner : Conflict → Kind
  | borrowCycle .. | unknownBorrow .. => .borrow
  | disallowedInputs .. => .structureDefinition
  | unexpectedInput .. | missingInput .. => .evaluate

def site (conflict : Conflict) (role : Role) (node : Node) (inputs : List TemplateInput) : Site :=
  ⟨node, ⟨conflict.owner, conflict.name, role⟩, inputs⟩

/-- The nodes of a conflict, the primary one first. -/
def sites (conflict : Conflict) : List Site :=
  match conflict with
  | borrowCycle borrow closing cycle =>
    let first := (cycle.head?.bind Node.primaryName?).getD ""
    conflict.site .primary borrow [.node borrow, .name first, .count cycle.length] ::
      if closing.same borrow then [] else [conflict.site .secondary closing [.node closing]]
  | disallowedInputs structureNode => [conflict.site .primary structureNode []]
  | unexpectedInput definition _ input =>
    conflict.site .primary input [.node definition] ::
      definition.namesNode?.toList.map fun names => conflict.site .secondary names [.node input]
  | missingInput definition evaluate input =>
    [conflict.site .primary evaluate [.name (input.primaryName?.getD ""), .node definition],
     conflict.site .secondary input [.node evaluate]]
  | unknownBorrow borrow => [conflict.site .primary borrow [.node borrow]]

/-- Whether a node, by its number, is at one of the sites. -/
def involves (conflict : Conflict) (node : Node) : Bool :=
  conflict.sites.any (·.node.same node)

end Conflict

end ProgramTree
