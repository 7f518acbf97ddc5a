import ProgramTree.Construction
import ProgramTree.Proofs.WellFormed

namespace ProgramTree

namespace Node

variable {node : Node} {next after : Nat}

@[simp]
theorem isSymbol_token {id : Nat} {symbol other : Symbol} {text : String} :
    (token id symbol text).isSymbol other = true ↔ symbol = other := by
  simp [isSymbol, symbol?]

theorem ofText_eq_ok {symbol : Symbol} {text : String} :
    ofText symbol text next = .ok node after ↔
      symbol.accepts text = true ∧ token next symbol text = node ∧ next + 1 = after := by
  cases ha : symbol.accepts text with
  | true => simp [ofText_eq_ok_iff.mpr ha]
  | false => simp [ofText_eq_error_iff.mpr ha]

theorem create_eq_ok_iff {kind : Kind} {contents : List (Field Node)} :
    create kind contents next = .ok node after ↔
      kind.check (kind.named contents) = .ok () ∧
        tree next kind (kind.named contents) = node ∧ next + 1 = after := by
  unfold create
  cases hc : kind.check (kind.named contents) with
  | ok =>
    change EStateM.Result.ok _ _ = _ ↔ _
    simp
  | error fault =>
    change EStateM.Result.error _ _ = _ ↔ _
    simp

end Node

section Contents

variable {name : String} {permits : List Permit} {kind : Kind} {fields : Fields}

@[simp]
theorem FieldRule.check_one {node : Node} :
    (FieldRule.one name permits).check kind fields (.one node) = .ok () ↔
      ∃ permit ∈ permits, permit.admits node = true := by
  simp [check_eq_ok_iff, Shape.allows_iff, one, Field.arity, Shape.arity, Field.nodes,
    Shape.permits, Shape.nonEmpty, Shape.pair?]

@[simp]
theorem FieldRule.check_list {nodes : List Node} :
    (FieldRule.list name permits).check kind fields (.list nodes) = .ok () ↔
      ∀ node ∈ nodes, ∃ permit ∈ permits, permit.admits node = true := by
  simp [check_eq_ok_iff, Shape.allows_iff, list, Field.arity, Shape.arity, Field.nodes,
    Shape.permits, Shape.nonEmpty, Shape.pair?]

@[simp]
theorem FieldRule.check_nonEmptyList {nodes : List Node} :
    (FieldRule.nonEmptyList name permits).check kind fields (.list nodes) = .ok () ↔
      nodes ≠ [] ∧ ∀ node ∈ nodes, ∃ permit ∈ permits, permit.admits node = true := by
  simp [check_eq_ok_iff, Shape.allows_iff, nonEmptyList, Field.arity, Shape.arity, Field.nodes,
    Shape.permits, Shape.nonEmpty, Shape.pair?, and_comm]

@[simp]
theorem FieldRule.check_optional {node : Option Node} {pair : Option Pair} :
    (FieldRule.mk name (.optional permits pair)).check kind fields (.optional node) = .ok () ↔
      (∀ child ∈ node, ∃ permit ∈ permits, permit.admits child = true) ∧
        (node = none → ∀ p ∈ pair, (fields.lookup p.sibling).any (·.isPresent) = false) := by
  cases node <;>
    simp [check_eq_ok_iff, Shape.allows_iff, Field.arity, Shape.arity, Field.nodes,
      Shape.permits, Shape.nonEmpty, Shape.pair?, Field.isPresent]

theorem Kind.check_named {contents : List (Field Node)}
    (hl : contents.length = kind.grammar.length) :
    kind.check (kind.named contents) = .ok () ↔
      ∀ entry ∈ kind.grammar.zip contents,
        entry.1.check kind (kind.named contents) entry.2 = .ok () := by
  have hn : (kind.named contents).map (·.1) = kind.grammar.map (·.name) := by
    rw [map_fst_named (hl.trans (length_layout kind).symm), map_fst_layout]
  have hz : kind.grammar.zip contents =
      (kind.grammar.zip (kind.named contents)).map fun entry => (entry.1, entry.2.2) :=
    (congrArg kind.grammar.zip (map_snd_named kind contents)).symm.trans List.zip_map_right
  rw [check_eq_ok_iff hn, hz, List.forall_mem_map]

end Contents

end ProgramTree
