import Mathlib.Data.List.Forall2
import ProgramTree.Validation

namespace ProgramTree

section Related

variable {α β γ : Type} {R : α → β → Prop}

theorem forall₂_flatMap {items : List γ} {f : γ → List α} {g : γ → List β}
    (h : ∀ item ∈ items, List.Forall₂ R (f item) (g item)) :
    List.Forall₂ R (items.flatMap f) (items.flatMap g) := by
  induction items with
  | nil => exact .nil
  | cons item rest ih =>
    have hrest := ih fun other ho => h other (List.mem_cons_of_mem _ ho)
    rw [List.flatMap_cons, List.flatMap_cons]
    exact List.rel_append (h item List.mem_cons_self) hrest

theorem forall₂_map_map {items : List γ} {f : γ → α} {g : γ → β} (h : ∀ item, R (f item) (g item)) :
    List.Forall₂ R (items.map f) (items.map g) := by
  rw [List.forall₂_map_left_iff, List.forall₂_map_right_iff, List.forall₂_same]
  exact fun item _ => h item

/-- Where a test takes related items alike, the first items that pass it are related. -/
theorem rel_find? {first : List α} {second : List β} {p : α → Bool} {q : β → Bool}
    (h : List.Forall₂ R first second) (hp : ∀ a b, R a b → p a = q b) :
    Option.Rel R (first.find? p) (second.find? q) := by
  induction h with
  | nil => exact .none
  | @cons a b rest others hab _ ih =>
    rw [List.find?_cons, List.find?_cons, ← hp a b hab]
    cases p a with
    | true => exact .some hab
    | false => exact ih

theorem forall₂_set {a b : α} {R : α → α → Prop} (hr : ∀ item, R item item) (hab : R a b)
    {items : List α} {index : Nat} (h : items[index]? = some a) :
    List.Forall₂ R items (items.set index b) := by
  induction items generalizing index with
  | nil => exact .nil
  | cons item rest ih =>
    cases index with
    | zero =>
      cases h
      exact .cons hab (List.forall₂_same.mpr fun other _ => hr other)
    | succ index => exact .cons (hr item) (ih h)

end Related

/-- Two nodes of which one is the other, or what has become of the one definition. -/
def Node.Redefined (definition rebuilt a b : Node) : Prop :=
  b = a ∨ a = definition ∧ b = rebuilt

/-- The same conflict. At most the definition in it is another one. -/
inductive Conflict.Redefined (definition rebuilt : Node) : Conflict → Conflict → Prop
  | same (conflict : Conflict) : Redefined definition rebuilt conflict conflict
  | unexpectedInput (evaluate input : Node) :
      Redefined definition rebuilt (.unexpectedInput definition evaluate input)
        (.unexpectedInput rebuilt evaluate input)
  | missingInput (evaluate input : Node) :
      Redefined definition rebuilt (.missingInput definition evaluate input)
        (.missingInput rebuilt evaluate input)

section Redefined

variable {definition rebuilt a b : Node}

theorem Node.Redefined.unexpectedInput (h : Node.Redefined definition rebuilt a b)
    (evaluate input : Node) :
    Conflict.Redefined definition rebuilt (.unexpectedInput a evaluate input)
      (.unexpectedInput b evaluate input) := by
  rcases h with rfl | ⟨rfl, rfl⟩
  · exact .same _
  · exact .unexpectedInput evaluate input

theorem Node.Redefined.missingInput (h : Node.Redefined definition rebuilt a b)
    (evaluate input : Node) :
    Conflict.Redefined definition rebuilt (.missingInput a evaluate input)
      (.missingInput b evaluate input) := by
  rcases h with rfl | ⟨rfl, rfl⟩
  · exact .same _
  · exact .missingInput evaluate input

theorem Conflict.Redefined.refl (conflicts : List Conflict) :
    List.Forall₂ (Conflict.Redefined definition rebuilt) conflicts conflicts :=
  List.forall₂_same.mpr fun conflict _ => .same conflict

end Redefined

namespace Globals

/-- The same names have definitions and sources. A name may have the rebuilt definition where it
had the definition, and both have the same inputs. -/
structure Redefines (definition rebuilt : Node) (first second : Globals) : Prop where
  inputs : rebuilt.declaredInputs = definition.declaredInputs
  definition? : ∀ name, Option.Rel (Node.Redefined definition rebuilt) (first.definition? name)
    (second.definition? name)
  source? : ∀ name, (second.source? name).isNone = (first.source? name).isNone

namespace Redefines

variable {definition rebuilt a b node : Node} {first second : Globals} {scope : Scope}

theorem declaredInputs (h : Redefines definition rebuilt first second)
    (hab : Node.Redefined definition rebuilt a b) : b.declaredInputs = a.declaredInputs := by
  rcases hab with rfl | ⟨rfl, rfl⟩
  · rfl
  · exact h.inputs

theorem resolve? (h : Redefines definition rebuilt first second) (scope : Scope) (name : String) :
    Option.Rel (Node.Redefined definition rebuilt) (first.resolve? scope name)
      (second.resolve? scope name) := by
  unfold Globals.resolve?
  split
  next node _ => exact .some (.inl rfl)
  next => exact .none
  next => exact h.definition? name

theorem definitionOf? (h : Redefines definition rebuilt first second) (scope : Scope)
    (node : Node) :
    Option.Rel (Node.Redefined definition rebuilt) (first.definitionOf? scope node)
      (second.definitionOf? scope node) := by
  unfold Globals.definitionOf?
  split
  next =>
    cases (node.single? "name").bind Node.text? with
    | none => exact .none
    | some name => exact h.resolve? scope name
  next =>
    split
    next => exact .some (.inl rfl)
    next => exact .none

theorem operator? (h : Redefines definition rebuilt first second) (scope : Scope) (node : Node) :
    Option.Rel (Node.Redefined definition rebuilt) (first.operator? scope node)
      (second.operator? scope node) := by
  unfold Globals.operator?
  cases node.text? with
  | none => exact .none
  | some name => exact h.resolve? scope name

/-- Of a definition a call sees nothing but its inputs. -/
theorem argumentConflicts (h : Redefines definition rebuilt first second)
    (hab : Node.Redefined definition rebuilt a b) (call : Node) (arguments : List Node) :
    List.Forall₂ (Conflict.Redefined definition rebuilt) (argumentConflicts a call arguments)
      (argumentConflicts b call arguments) := by
  unfold ProgramTree.argumentConflicts
  rw [h.declaredInputs hab]
  apply List.rel_append
  · exact forall₂_map_map fun entry => hab.unexpectedInput call entry.1
  · exact forall₂_map_map fun entry => hab.missingInput call entry.1

theorem evaluateConflicts (h : Redefines definition rebuilt first second) (scope : Scope)
    (node : Node) :
    List.Forall₂ (Conflict.Redefined definition rebuilt) (first.evaluateConflicts scope node)
      (second.evaluateConflicts scope node) := by
  unfold Globals.evaluateConflicts
  cases node.single? "fun" with
  | none => exact .nil
  | some callee =>
    have hcallee := h.definitionOf? scope callee
    rw [Option.bind_some, Option.bind_some]
    generalize first.definitionOf? scope callee = before at hcallee ⊢
    generalize second.definitionOf? scope callee = after at hcallee ⊢
    cases hcallee with
    | none => exact .nil
    | some hab => exact h.argumentConflicts hab node (node.elements "inputs")

theorem binaryConflicts (h : Redefines definition rebuilt first second) (scope : Scope)
    (node : Node) :
    List.Forall₂ (Conflict.Redefined definition rebuilt) (first.binaryConflicts scope node)
      (second.binaryConflicts scope node) := by
  unfold Globals.binaryConflicts
  cases node.single? "operator" with
  | none => exact .nil
  | some operator =>
    have hoperator := h.operator? scope operator
    rw [Option.bind_some, Option.bind_some]
    generalize first.operator? scope operator = before at hoperator ⊢
    generalize second.operator? scope operator = after at hoperator ⊢
    cases hoperator with
    | none => exact .nil
    | some hab =>
      simp only [h.declaredInputs hab]
      split
      next => exact forall₂_map_map fun right => hab.unexpectedInput node right
      next => exact forall₂_map_map fun parameter => hab.missingInput node parameter

theorem conflictsAt (h : Redefines definition rebuilt first second) (scope : Scope) (node : Node) :
    List.Forall₂ (Conflict.Redefined definition rebuilt) (first.conflictsAt scope node)
      (second.conflictsAt scope node) := by
  unfold Globals.conflictsAt
  split
  next => exact Conflict.Redefined.refl _
  next => exact h.evaluateConflicts scope node
  next => exact h.binaryConflicts scope node
  next =>
    simp only [borrowConflicts, h.source?]
    exact Conflict.Redefined.refl _
  next => exact .nil

theorem sourceConflicts (h : Redefines definition rebuilt first second) (source : Node) :
    List.Forall₂ (Conflict.Redefined definition rebuilt) (first.sourceConflicts source)
      (second.sourceConflicts source) :=
  forall₂_flatMap fun visit _ => h.conflictsAt visit.2 visit.1

end Redefines

end Globals

end ProgramTree
