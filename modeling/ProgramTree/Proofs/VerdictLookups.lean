import ProgramTree.Proofs.Executable
import ProgramTree.Proofs.Provenance

namespace ProgramTree

namespace Node

/-- What a caller sees of a definition: for each of its inputs the names, and whether every caller
must supply it. -/
def signature (definition : Node) : List (List String × Bool) :=
  definition.declaredInputs.map fun parameter => (parameter.declaredNames, parameter.isRequired)

theorem length_signature (definition : Node) :
    definition.signature.length = definition.declaredInputs.length :=
  List.length_map _

theorem findIdx?_signature (definition : Node) (name : String) :
    definition.signature.findIdx? (·.1.contains name) =
      definition.declaredInputs.findIdx? (·.declares name) := by
  rw [signature, List.findIdx?_map]
  rfl

theorem getElem?_signature {definition : Node} {index : Nat} {names : List String} :
    definition.signature[index]? = some (names, true) ↔
      ∃ parameter, definition.declaredInputs[index]? = some parameter ∧
        parameter.declaredNames = names ∧ parameter.isRequired = true := by
  rw [signature, List.getElem?_map, Option.map_eq_some_iff]
  simp only [Prod.mk.injEq]

section Signature

variable {first second : Node} (h : first.signature = second.signature)

include h

theorem assignSlots_of_signature (taken : List Nat) (arguments : List Node) :
    assignSlots first.declaredInputs taken arguments =
      assignSlots second.declaredInputs taken arguments := by
  induction arguments generalizing taken with
  | nil => rfl
  | cons argument rest ih =>
    have hslot : slotFor first.declaredInputs taken argument =
        slotFor second.declaredInputs taken argument := by
      simp only [slotFor, ← findIdx?_signature, ← length_signature, h]
    rw [assignSlots, assignSlots, hslot, ih]

/-- Definitions with one signature accept the same arguments. -/
theorem accepts_of_signature (arguments : List Node) :
    first.Accepts arguments ↔ second.Accepts arguments := by
  have hrequired : ∀ (definition : Node) (taken : List Nat),
      (∀ index parameter, definition.declaredInputs[index]? = some parameter →
        parameter.isRequired = true → index ∈ taken) ↔
      ∀ index names, definition.signature[index]? = some (names, true) → index ∈ taken := by
    intro definition taken
    constructor
    · intro hall index names hs
      obtain ⟨parameter, hp, -, hr⟩ := getElem?_signature.mp hs
      exact hall index parameter hp hr
    · intro hall index parameter hp hr
      exact hall index _ (getElem?_signature.mpr ⟨parameter, hp, rfl, hr⟩)
  simp only [Accepts, allTake_iff, assignSlots_of_signature h, hrequired, h]

end Signature

end Node

namespace Globals

section Lookups

variable {first second : Globals} (hd : ∀ name,
  (first.definition? name).map Node.signature = (second.definition? name).map Node.signature)

include hd

theorem map_resolve? (scope : Scope) (name : String) :
    (first.resolve? scope name).map Node.signature =
      (second.resolve? scope name).map Node.signature := by
  unfold resolve?
  split
  next => rfl
  next => rfl
  next => exact hd name

theorem map_definitionOf? (scope : Scope) (expression : Node) :
    (first.definitionOf? scope expression).map Node.signature =
      (second.definitionOf? scope expression).map Node.signature := by
  unfold definitionOf?
  split
  next =>
    cases (expression.single? "name").bind Node.text? with
    | none => rfl
    | some name => exact map_resolve? hd scope name
  next => rfl

theorem map_operator? (scope : Scope) (operator : Node) :
    (first.operator? scope operator).map Node.signature =
      (second.operator? scope operator).map Node.signature := by
  unfold operator?
  cases operator.text? with
  | none => rfl
  | some name => exact map_resolve? hd scope name

/-- What a node calls has the same signature, where the definitions at the top level do. -/
theorem map_called? (scope : Scope) (node : Node) :
    (first.called? scope node).map Node.signature =
      (second.called? scope node).map Node.signature := by
  unfold called?
  split
  next =>
    cases node.single? "fun" with
    | none => rfl
    | some callee => exact map_definitionOf? hd scope callee
  next =>
    cases node.single? "operator" with
    | none => rfl
    | some operator => exact map_operator? hd scope operator
  next => rfl

theorem conflictsAt_eq_nil_congr (hs : first.source? = second.source?) {node : Node}
    (h : node.WellFormed) (scope : Scope) :
    first.conflictsAt scope node = [] ↔ second.conflictsAt scope node = [] := by
  by_cases hk : node.kind = .evaluate ∨ node.kind = .binaryEvaluate
  · have hcalled := map_called? hd scope node
    rw [conflictsAt_of_calling h hk, conflictsAt_of_calling h hk]
    cases hf : first.called? scope node <;> cases hg : second.called? scope node <;>
      simp only [hf, hg, Option.map_none, Option.map_some, reduceCtorEq, Option.some.injEq]
        at hcalled
    · rfl
    · rw [Node.argumentConflicts_eq_nil_iff, Node.argumentConflicts_eq_nil_iff,
        Node.accepts_of_signature hcalled]
  · unfold conflictsAt
    split
    next => rfl
    next he => exact (hk (Or.inl he)).elim
    next hb => exact (hk (Or.inr hb)).elim
    next => rw [borrowConflicts, borrowConflicts, hs]
    next => rfl

/-- Whether a source has conflicts depends on the other sources through two lookups only, and of
a definition it depends on the signature. -/
theorem sourceConflicts_eq_nil_congr (hs : first.source? = second.source?) {source : Node}
    (h : source.WellFormed) :
    first.sourceConflicts source = [] ↔ second.sourceConflicts source = [] := by
  simp only [sourceConflicts_eq_flatMap, List.flatMap_eq_nil_iff]
  refine forall₂_congr fun occurrence ho => conflictsAt_eq_nil_congr hd hs ?_ _
  exact h.of_mem_descendants (Node.mem_descendants_of_mem_occurrences ho)

end Lookups

end Globals

namespace Program

variable {given : Node → Prop} {program first second : Program} {source : Node}

/-- A borrow of one source finds the other. -/
def BorrowsSource (program : Program) (source target : Node) : Prop :=
  source ∈ program.sources ∧ ∃ borrow ∈ source.borrows, ∃ name,
    borrow.borrowedSource? = some name ∧ program.get? name = some target

def sourceAt (program : Program) (index : Nat) : Node :=
  program.sources[index]?.getD default

def position (program : Program) (source : Node) : Nat :=
  (source.primaryName?.bind program.indexOf?).getD 0

theorem Keyed.position_eq (hk : Keyed given program) {index : Nat}
    (hs : program.sources[index]? = some source) : program.position source = index := by
  obtain ⟨_, _, name, hn⟩ := hk.mem_sources (List.mem_of_getElem? hs)
  have hi : program.indexOf? name = some index :=
    hk.indexOf?_eq_some_iff.mpr ⟨source, hs, declares_of_primaryName? hn, .inl hn⟩
  rw [position, hn, Option.bind_some, hi, Option.getD_some]

theorem borrowsSource_of_leads {i j : Nat} (h : (BorrowGraph.ofProgram program).Leads i j) :
    program.BorrowsSource (program.sourceAt i) (program.sourceAt j) := by
  obtain ⟨edge, he, rfl⟩ := h
  obtain ⟨source, name, hs, hb, hn, hi⟩ := BorrowGraph.mem_edgesFrom_ofProgram.mp he
  have ht := List.getElem?_eq_getElem (indexOf?_lt hi)
  rw [sourceAt, sourceAt, hs, ht]
  refine ⟨List.mem_of_getElem? hs, edge.borrow, hb, name, hn, ?_⟩
  rw [get?, hi, Option.bind_some, ht, Option.getD_some]

theorem Keyed.leads_of_borrowsSource (hk : Keyed given program) {target : Node}
    (h : program.BorrowsSource source target) :
    (BorrowGraph.ofProgram program).Leads (program.position source) (program.position target) := by
  obtain ⟨hm, borrow, hb, name, hn, hg⟩ := h
  obtain ⟨index, hs⟩ := List.mem_iff_getElem?.mp hm
  obtain ⟨found, hi, ht⟩ := Option.bind_eq_some_iff.mp hg
  rw [hk.position_eq hs, hk.position_eq ht]
  exact ⟨⟨borrow, found⟩,
    BorrowGraph.mem_edgesFrom_ofProgram.mpr ⟨source, name, hs, hb, hn, hi⟩, rfl⟩

/-- No circle is reported exactly when no source borrows from itself through others, wherever the
sources stand. -/
theorem Keyed.borrowCycles_eq_nil_iff_sources (hk : Keyed given program) :
    program.borrowCycles = [] ↔
      ∀ source, ¬ Relation.TransGen program.BorrowsSource source source := by
  rw [borrowCycles_eq_nil_iff_acyclic]
  constructor
  · intro h source hc
    exact h _ (hc.lift program.position fun _ _ => hk.leads_of_borrowsSource)
  · intro h index hc
    exact h _ (hc.lift program.sourceAt fun _ _ => borrowsSource_of_leads)

theorem Keyed.isExecutable_iff_sources (hk : Keyed given program) :
    program.analyze.isExecutable = true ↔
      (∀ source ∈ program.sources, (Globals.ofProgram program).sourceConflicts source = []) ∧
      ∀ source, ¬ Relation.TransGen program.BorrowsSource source source := by
  rw [Findings.isExecutable_iff, analyze, List.append_eq_nil_iff, List.flatMap_eq_nil_iff,
    hk.borrowCycles_eq_nil_iff_sources]

/-- The order of the sources has no effect on the verdict where it has none on the signatures of
the definitions and on the lookups of sources. -/
theorem isExecutable_of_lookups (hf : Keyed Node.WellFormed first)
    (hs : Keyed Node.WellFormed second) (hperm : first.sources.Perm second.sources)
    (hd : ∀ name, ((Globals.ofProgram first).definition? name).map Node.signature =
      ((Globals.ofProgram second).definition? name).map Node.signature)
    (hg : first.get? = second.get?) :
    first.analyze.isExecutable = second.analyze.isExecutable := by
  have hborrows : first.BorrowsSource = second.BorrowsSource := by
    funext source target
    rw [BorrowsSource, BorrowsSource, hg, hperm.mem_iff]
  rw [Bool.eq_iff_iff, hf.isExecutable_iff_sources, hs.isExecutable_iff_sources, hborrows]
  refine and_congr_left' (forall_congr' fun source => ?_)
  rw [hperm.mem_iff]
  exact forall_congr' fun hm =>
    Globals.sourceConflicts_eq_nil_congr hd hg (hs.mem_sources hm).1

end Program

end ProgramTree
