import ProgramTree.Declarations
import ProgramTree.Proofs.BuilderGrowth
import ProgramTree.Proofs.CheckedContents
import ProgramTree.Proofs.SpineEdits
import ProgramTree.Proofs.UnalphabeticNames

namespace ProgramTree

namespace Builders

variable {text : String} {next : Nat}

/-- The node that declares one text, its token under the given number. -/
def declaration (text : String) (id : Nat) : Node :=
  .tree (id + 1) .names [("names", .list [.token id (declaredSymbol text) text])]

theorem mapM_declaredName (text : String) :
    [text].mapM declaredName = do return [← Node.ofText (declaredSymbol text) text] := by
  simp [declaredName_eq]

theorem names_ok (ha : (declaredSymbol text).accepts text = true) :
    names [text] next = .ok (declaration text next) (next + 2) := by
  have ht : Node.ofText (declaredSymbol text) text next = .ok _ _ := Node.ofText_eq_ok_iff.mpr ha
  have hm : [text].mapM declaredName next = .ok [.token next (declaredSymbol text) text]
      (next + 1) := by
    rw [mapM_declaredName, Construct.bind_ok ht]
    rfl
  rw [names, Construct.bind_ok hm, Node.create_eq_ok_iff]
  refine ⟨?_, rfl, rfl⟩
  rcases declaredSymbol_eq_or text with h | h <;> rw [h] <;> rfl

theorem names_error (ha : (declaredSymbol text).accepts text = false) :
    names [text] next = .error (.invalidToken (declaredSymbol text) text) next := by
  have ht : Node.ofText (declaredSymbol text) text next = .error _ _ :=
    Node.ofText_eq_error_iff.mpr ha
  rw [names, mapM_declaredName, Construct.bind_error (Construct.bind_error ht)]

end Builders

namespace Builder

/-- The one text that a request declares. -/
def declared? : Builder → Option String
  | bind content _ | function content .. | structureDefinition content .. | stream content ..
  | source content .. => some content
  | _ => none

/-- The nodes that a declaration brings along are permitted where it puts them. -/
def PartsFit : Builder → Prop
  | bind _ default => ∀ value ∈ default, value.kind.isExpression = true
  | function _ inputs body | stream _ inputs body =>
    (∀ input ∈ inputs, input.kind = .bind) ∧ ∀ value ∈ body, value.kind.isExpression = true
  | structureDefinition _ inputs body =>
    (∀ input ∈ inputs, input.kind = .bind) ∧ ∀ value ∈ body, value.kind = .block
  | source _ borrows statements =>
    (∀ borrow ∈ borrows, borrow.kind = .borrow) ∧
      ∀ statement ∈ statements, statement.kind.isExpression = true ∨ statement.kind = .bind
  | _ => True

/-- A request answers when the parts fit, and the answer declares the text with a token of its
class. -/
structure Declares (request : Builder) (content : String) (next : Nat) : Prop where
  answers : (∃ node after, request.run next = .ok node after) ↔ request.PartsFit
  declared : ∀ node after, request.run next = .ok node after →
    ∃ id, node.namesNode? = some (Builders.declaration content id)

theorem Declares.of_create {request : Builder} {content : String} {next middle id : Nat}
    {kind : Kind} {contents : List (Field Node)}
    (hr : request.run next = Node.create kind contents middle)
    (hc : kind.check (kind.named contents) = .ok () ↔ request.PartsFit)
    (hn : ∀ other, (Node.tree other kind (kind.named contents)).namesNode? =
      some (Builders.declaration content id)) : request.Declares content next := by
  constructor
  · simp [hr, Node.create_eq_ok_iff, hc]
  · intro node after h
    rw [hr, Node.create_eq_ok_iff] at h
    obtain ⟨_, rfl, _⟩ := h
    exact ⟨id, hn middle⟩

@[simp]
theorem kind_declaration (content : String) (id : Nat) :
    (Builders.declaration content id).kind = .names := rfl

@[simp]
theorem kind_tree (id : Nat) (kind : Kind) (fields : Fields) :
    (Node.tree id kind fields).kind = kind := rfl

section Declarations

open Construct Builders Node

variable {content : String} (ha : (declaredSymbol content).accepts content = true) (next : Nat)
include ha

theorem declares_bind (default : Option Node) :
    (bind content default).Declares content next := by
  cases default with
  | none =>
    have hr : (bind content none).run next = Node.create .bind
        [.one (declaration content next), .optional none, .optional none] (next + 2) :=
      bind_ok (names_ok ha)
    refine .of_create hr ?_ fun _ => rfl
    rw [Kind.check_named rfl]
    simp [Kind.grammar, FieldRule.paired, FieldRule.bound, Permit.admits, PartsFit, Kind.named,
      Kind.layout, List.lookup_cons, Field.isPresent, Field.nodes]
  | some value =>
    have hr : (bind content (some value)).run next = Node.create .bind
        [.one (declaration content (next + 1)), .optional (some (.token next .bind ":")),
          .optional (some value)] (next + 3) :=
      (bind_ok rfl).trans (bind_ok (names_ok ha))
    refine .of_create hr ?_ fun _ => rfl
    rw [Kind.check_named rfl]
    simp [Kind.grammar, FieldRule.paired, FieldRule.bound, Permit.admits, PartsFit]

theorem declares_function (inputs : List Node) (body : Option Node) :
    (function content inputs body).Declares content next := by
  have hr : (function content inputs body).run next = Node.create .functionDefinition
      [.optional none, .one (.token next .function "ƒ"), .one (declaration content (next + 1)),
        .one (.token (next + 3) .evalOpen "("), .list inputs,
        .one (.token (next + 4) .evalClose ")"), .optional body] (next + 5) :=
    (bind_ok rfl).trans ((bind_ok (names_ok ha)).trans ((bind_ok rfl).trans (bind_ok rfl)))
  refine .of_create hr ?_ fun _ => rfl
  rw [Kind.check_named rfl]
  simp [Kind.grammar, FieldRule.optional, Permit.admits, PartsFit]

theorem declares_stream (inputs : List Node) (body : Option Node) :
    (stream content inputs body).Declares content next := by
  have hr : (stream content inputs body).run next = Node.create .streamDefinition
      [.optional none, .one (.token next .stream "…"), .one (declaration content (next + 1)),
        .one (.token (next + 3) .evalOpen "("), .list inputs,
        .one (.token (next + 4) .evalClose ")"), .optional body] (next + 5) :=
    (bind_ok rfl).trans ((bind_ok (names_ok ha)).trans ((bind_ok rfl).trans (bind_ok rfl)))
  refine .of_create hr ?_ fun _ => rfl
  rw [Kind.check_named rfl]
  simp [Kind.grammar, FieldRule.optional, Permit.admits, PartsFit]

theorem declares_structure (inputs : List Node) (body : Option Node) :
    (structureDefinition content inputs body).Declares content next := by
  cases inputs with
  | nil =>
    have hr : (structureDefinition content [] body).run next = Node.create .structureDefinition
        [.optional none, .one (.token next .type "•"), .one (declaration content (next + 1)),
          .optional none, .list [], .optional none, .optional body] (next + 3) :=
      (bind_ok rfl).trans ((bind_ok rfl).trans (bind_ok (names_ok ha)))
    refine .of_create hr ?_ fun _ => rfl
    rw [Kind.check_named rfl]
    simp [Kind.grammar, FieldRule.optional, FieldRule.paired, Permit.admits, PartsFit, Kind.named,
      Kind.layout, List.lookup_cons, Field.isPresent, Field.nodes]
  | cons first rest =>
    have hr : (structureDefinition content (first :: rest) body).run next =
        Node.create .structureDefinition
          [.optional none, .one (.token (next + 2) .type "•"),
            .one (declaration content (next + 3)), .optional (some (.token next .evalOpen "(")),
            .list (first :: rest), .optional (some (.token (next + 1) .evalClose ")")),
            .optional body] (next + 5) :=
      (bind_ok rfl).trans ((bind_ok rfl).trans (bind_ok (names_ok ha)))
    refine .of_create hr ?_ fun _ => rfl
    rw [Kind.check_named rfl]
    simp [Kind.grammar, FieldRule.optional, FieldRule.paired, Permit.admits, PartsFit]

/-- The statements of a source are checked when its block is made, before the source itself. -/
theorem declares_source (borrows statements : List Node) :
    (source content borrows statements).Declares content next := by
  have hblock : Kind.block.check (Kind.block.named
      [.optional none, .list statements, .optional none]) = .ok () ↔
      ∀ statement ∈ statements, statement.kind.isExpression = true ∨ statement.kind = .bind := by
    rw [Kind.check_named rfl]
    simp [Kind.grammar, FieldRule.paired, Permit.admits, Kind.named, Kind.layout,
      List.lookup_cons, Field.isPresent, Field.nodes]
  by_cases hs : ∀ statement ∈ statements,
      statement.kind.isExpression = true ∨ statement.kind = .bind
  · have hbody : Builders.bareBlock statements (next + 2) = .ok (.tree (next + 2) .block
        (Kind.block.named [.optional none, .list statements, .optional none])) (next + 3) :=
      Node.create_eq_ok_iff.mpr ⟨hblock.mpr hs, rfl, rfl⟩
    have hr : (source content borrows statements).run next = Node.create .source
        [.one (declaration content next), .list borrows, .one (.tree (next + 2) .block
          (Kind.block.named [.optional none, .list statements, .optional none]))] (next + 3) :=
      (bind_ok (names_ok ha)).trans (bind_ok hbody)
    refine .of_create hr ?_ fun _ => rfl
    have hfits : (source content borrows statements).PartsFit ↔
        ∀ borrow ∈ borrows, borrow.kind = .borrow := and_iff_left hs
    rw [Kind.check_named rfl, hfits]
    simp [Kind.grammar, Permit.admits]
  · have hn : ∀ node after, (source content borrows statements).run next ≠ .ok node after := by
      intro node after h
      obtain ⟨_, _, _, h⟩ := exists_of_bind_ok h
      obtain ⟨_, _, hbody, _⟩ := exists_of_bind_ok h
      exact hs (hblock.mp (Node.create_eq_ok_iff.mp hbody).1)
    constructor
    · refine iff_of_false ?_ fun h => hs h.2
      rintro ⟨node, after, h⟩
      exact hn node after h
    · intro node after h
      exact absurd h (hn node after)

end Declarations

theorem declares {request : Builder} {content : String} (hd : request.declared? = some content)
    (ha : (Builders.declaredSymbol content).accepts content = true) (next : Nat) :
    request.Declares content next := by
  cases request <;> cases hd
  case bind default => exact declares_bind ha next default
  case function inputs body => exact declares_function ha next inputs body
  case structureDefinition inputs body => exact declares_structure ha next inputs body
  case stream inputs body => exact declares_stream ha next inputs body
  case source borrows statements => exact declares_source ha next borrows statements

end Builder

end ProgramTree
