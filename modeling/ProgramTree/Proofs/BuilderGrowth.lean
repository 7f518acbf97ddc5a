import ProgramTree.Builders
import ProgramTree.Proofs.Growth

namespace ProgramTree

/-- A request for a builder. -/
inductive Builder where
  | name (text : String)
  | names (texts : List String)
  | reference (text : String)
  | number (text : String)
  | text (text : String)
  | block (statements : List Node)
  | bareBlock (statements : List Node)
  | bind (text : String) (default : Option Node)
  | function (text : String) (inputs : List Node) (body : Option Node)
  | structureDefinition (text : String) (inputs : List Node) (body : Option Node)
  | stream (text : String) (inputs : List Node) (body : Option Node)
  | evaluate (callee : Node) (arguments : List Node)
  | binary (left : Node) (operator : String) (right : Node)
  | input (text : String) (value : Node)
  | borrow (source : String) (member : Option String)
  | source (text : String) (borrows statements : List Node)
  | words (text : String)
  | placeholder
  | formatted (format : Symbol) (segments : List Node)
  | doc (content : List Node)
  | docs (content : List Node)

namespace Builder

def run : Builder → Construct ShapeError Node
  | name content => Builders.name content
  | names contents => Builders.names contents
  | reference content => Builders.reference content
  | number content => Builders.number content
  | text content => Builders.text content
  | block statements => Builders.block statements
  | bareBlock statements => Builders.bareBlock statements
  | bind content default => Builders.bind content default
  | function content inputs body => Builders.function content inputs body
  | structureDefinition content inputs body => Builders.structureDefinition content inputs body
  | stream content inputs body => Builders.stream content inputs body
  | evaluate callee arguments => Builders.evaluate callee arguments
  | binary left operator right => Builders.binary left operator right
  | input content value => Builders.input content value
  | borrow origin member => Builders.borrow origin member
  | source content borrows statements => Builders.source content borrows statements
  | words content => Builders.words content
  | placeholder => Builders.placeholder
  | formatted format segments => Builders.formatted format segments
  | doc content => Builders.doc content
  | docs content => Builders.docs content

/-- The nodes that a request brings along. -/
def handles : Builder → List Node
  | block statements | bareBlock statements => statements
  | bind _ default => default.toList
  | function _ inputs body | structureDefinition _ inputs body | stream _ inputs body =>
    inputs ++ body.toList
  | evaluate callee arguments => callee :: arguments
  | binary left _ right => [left, right]
  | input _ value => [value]
  | source _ borrows statements => borrows ++ statements
  | formatted _ segments => segments
  | doc content | docs content => content
  | name _ | names _ | reference _ | number _ | text _ | borrow .. | words _ | placeholder => []

end Builder

namespace Construct.Grows

variable {given : Symbol → String → Prop} {ε α : Type} {handles : List Node}

theorem mapM {make : α → Construct ε Node} {items : List α}
    (h : ∀ item, Grows given handles (make item) ([·])) :
    Grows given handles (items.mapM make) id := by
  induction items with
  | nil => exact pure (by simp)
  | cons item rest ih =>
    rw [List.mapM_cons]
    refine (h item).bind fun node => (ih.weaken (by simp)).bind fun nodes => pure ?_
    simp

theorem declaredName (text : String) : Grows given handles (Builders.declaredName text) ([·]) := by
  unfold Builders.declaredName
  split
  next =>
    split
    · exact ofText .name text
    · exact ofText .operator text
  next => exact ofText .operator text

theorem names (texts : List String) : Grows given handles (Builders.names texts) ([·]) :=
  (mapM declaredName).bind fun _ => create (by decide) (by grind [Field.nodes])

theorem bareBlock (statements : List Node) :
    Grows given statements (Builders.bareBlock statements) ([·]) :=
  create (by decide) (by grind [Field.nodes])

/-- The colon of a bind is made exactly when there is a default value. -/
theorem colon (default : Option Node) :
    Grows given handles (default.mapM fun _ => Node.mark .bind : Construct ε (Option Node))
      Option.toList := by
  cases default with
  | none => exact pure (by simp)
  | some value => exact (mark rfl).bind fun colon => pure (by simp)

theorem parentheses (inputs : List Node) :
    Grows given handles (Builders.parentheses inputs)
      fun pair => pair.1.toList ++ pair.2.toList := by
  unfold Builders.parentheses
  split
  · exact pure (by simp)
  · exact (mark rfl).bind fun opening => (mark rfl).bind fun closing => pure (by simp)

theorem builder (request : Builder) : Grows given request.handles request.run ([·]) := by
  cases request with
  | name text => exact ofText .name text
  | names texts => exact names texts
  | reference text =>
    exact (ofText .name text).bind fun name => create (by decide) (by grind [Field.nodes])
  | number text =>
    exact (ofText .number text).bind fun token => create (by decide) (by grind [Field.nodes])
  | text content =>
    exact (ofText .text content).bind fun token => create (by decide) (by grind [Field.nodes])
  | block statements =>
    exact (mark rfl).bind fun opening => (mark rfl).bind fun closing =>
      create (by decide) (by grind [Field.nodes, Builder.handles])
  | bareBlock statements => exact bareBlock statements
  | bind text default =>
    exact (colon default).bind fun colon => (names [text]).bind fun declared =>
      create (by decide) (by grind [Field.nodes, Builder.handles])
  | function text inputs body =>
    exact (mark rfl).bind fun sign => (names [text]).bind fun declared =>
      (mark rfl).bind fun opening => (mark rfl).bind fun closing =>
        create (by decide) (by grind [Field.nodes, Builder.handles])
  | structureDefinition text inputs body =>
    refine (parentheses inputs).bind fun marks => ?_
    exact (mark rfl).bind fun sign => (names [text]).bind fun declared =>
      create (by decide) (by grind [Field.nodes, Builder.handles])
  | stream text inputs body =>
    exact (mark rfl).bind fun sign => (names [text]).bind fun declared =>
      (mark rfl).bind fun opening => (mark rfl).bind fun closing =>
        create (by decide) (by grind [Field.nodes, Builder.handles])
  | evaluate callee arguments =>
    exact (mark rfl).bind fun opening => (mark rfl).bind fun closing =>
      create (by decide) (by grind [Field.nodes, Builder.handles])
  | binary left operator right =>
    exact (ofText .operator operator).bind fun sign =>
      create (by decide) (by grind [Field.nodes, Builder.handles])
  | input text value =>
    exact (ofText .name text).bind fun label => (mark rfl).bind fun colon =>
      create (by decide) (by grind [Field.nodes, Builder.handles])
  | borrow source member =>
    refine (mark rfl).bind fun sign => (ofText .name source).bind fun origin => ?_
    cases member with
    | none => exact create (by decide) (by grind [Field.nodes])
    | some text =>
      exact (mark rfl).bind fun dot => (ofText .name text).bind fun label =>
        create (by decide) (by grind [Field.nodes])
  | source text borrows statements =>
    exact (names [text]).bind fun declared =>
      ((bareBlock statements).weaken (by grind [Builder.handles])).bind fun body =>
        create (by decide) (by grind [Field.nodes, Builder.handles])
  | words text =>
    exact (ofText .words text).bind fun prose => create (by decide) (by grind [Field.nodes])
  | placeholder =>
    exact (ofText .words "…").bind fun prose => create (by decide) (by grind [Field.nodes])
  | formatted format segments =>
    exact (ofSymbol format).bind fun opening => (ofSymbol format).bind fun closing =>
      create (by decide) (by grind [Field.nodes, Builder.handles])
  | doc content =>
    exact (mark rfl).bind fun opening => (mark rfl).bind fun closing =>
      create (by decide) (by grind [Field.nodes, Builder.handles])
  | docs content => exact create (by decide) (by grind [Field.nodes, Builder.handles])

end Construct.Grows

end ProgramTree
