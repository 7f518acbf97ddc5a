import ProgramTree.Findings
import ProgramTree.Proofs.ScopedConflicts
import ProgramTree.Proofs.Translations

namespace ProgramTree

/-- The same conflict between other nodes. -/
def Conflict.map (f : Node → Node) : Conflict → Conflict
  | borrowCycle borrow closing cycle => borrowCycle (f borrow) (f closing) (cycle.map f)
  | disallowedInputs structureNode => disallowedInputs (f structureNode)
  | unexpectedInput definition evaluate input =>
    unexpectedInput (f definition) (f evaluate) (f input)
  | missingInput definition evaluate input => missingInput (f definition) (f evaluate) (f input)
  | unknownBorrow borrow => unknownBorrow (f borrow)

/-- Items that contribute nothing can be left out. -/
theorem flatMap_filter_of_nil {α β : Type} {items : List α} {kept : α → Bool} {g : α → List β}
    (h : ∀ item ∈ items, kept item = false → g item = []) :
    (items.filter kept).flatMap g = items.flatMap g := by
  induction items with
  | nil => rfl
  | cons item rest ih =>
    have hrest := ih fun other ho => h other (List.mem_cons_of_mem _ ho)
    cases hk : kept item with
    | false =>
      have hnil : g item = [] := h item List.mem_cons_self hk
      rw [List.filter_cons_of_neg (by simp [hk]), hrest, List.flatMap_cons, hnil, List.nil_append]
    | true => rw [List.filter_cons_of_pos hk, List.flatMap_cons, List.flatMap_cons, hrest]

namespace Globals

variable {program : Program} {ancestors : List Node} {node : Node}
  (hp : ∀ source ∈ program.sources, source.WellFormed)
  (ha : ∀ ancestor ∈ ancestors, ancestor.WellFormed)

include hp ha

/-- A definition that a name denotes is a part of a source. -/
theorem wellFormed_of_resolve? {text : String} {definition : Node}
    (h : (ofProgram program).resolve? (.around ancestors) text = some definition) :
    definition.WellFormed := by
  cases resolve?_eq_some_iff.mp h with
  | @enclosing outer inner binder _ he hb _ =>
    have hbinder : binder ∈ ancestors := by simp [he]
    exact (ha binder hbinder).of_binding? hb
  | @topLevel before after _ _ hs _ _ _ =>
    have hm : definition ∈ program.sources.flatMap Node.topLevel := by simp [hs]
    obtain ⟨source, hsource, htop⟩ := List.mem_flatMap.mp hm
    exact (hp source hsource).of_mem_topLevel htop

theorem wellFormed_of_definitionOf? (h : node.WellFormed) {definition : Node}
    (hd : (ofProgram program).definitionOf? (.around ancestors) node = some definition) :
    definition.WellFormed := by
  unfold definitionOf? at hd
  split at hd
  next =>
    obtain ⟨text, _, hr⟩ := Option.bind_eq_some_iff.mp hd
    exact wellFormed_of_resolve? hp ha hr
  next =>
    split at hd
    next =>
      cases hd
      exact h
    next => cases hd

end Globals

namespace Translation

variable {name : String → String} {f : Node → Node} (ht : Translation name f)
  {program : Program} {node definition call argument : Node}
  {ancestors parameters arguments : List Node}

include ht

section Arguments

theorem slotFor (hp : ∀ parameter ∈ parameters, parameter.WellFormed) (ha : argument.WellFormed)
    (taken : List Nat) :
    slotFor (parameters.map f) taken (f argument) = slotFor parameters taken argument := by
  rw [ProgramTree.slotFor, ProgramTree.slotFor, ht.kind, List.length_map]
  split
  next =>
    rw [ht.inputName? ha, Option.bind_map]
    congr 2
    funext text
    exact findIdx?_map_of_agree fun parameter hm => ht.declares (hp parameter hm) text
  next => rfl

theorem assignSlots (hp : ∀ parameter ∈ parameters, parameter.WellFormed)
    (ha : ∀ argument ∈ arguments, argument.WellFormed) (taken : List Nat) :
    assignSlots (parameters.map f) taken (arguments.map f) =
      assignSlots parameters taken arguments := by
  induction arguments generalizing taken with
  | nil => rfl
  | cons argument rest ih =>
    have hslot := ht.slotFor hp (ha argument List.mem_cons_self) taken
    have hrest := ih (fun other ho => ha other (List.mem_cons_of_mem _ ho))
      ((ProgramTree.slotFor parameters taken argument).toList ++ taken)
    rw [List.map_cons, ProgramTree.assignSlots, ProgramTree.assignSlots, hslot, hrest]

theorem argumentConflicts (hd : definition.WellFormed)
    (ha : ∀ argument ∈ arguments, argument.WellFormed) (call : Node) :
    argumentConflicts (f definition) (f call) (arguments.map f) =
      (argumentConflicts definition call arguments).map (.map f) := by
  have hslots := ht.assignSlots (fun parameter hm => hd.of_mem_declaredInputs hm) ha []
  simp [ProgramTree.argumentConflicts, ht.declaredInputs, hslots, List.zip_map_left,
    List.zipIdx_map, List.filter_map, Function.comp_def, ht.isRequired, Conflict.map]

theorem structureConflicts (node : Node) :
    structureConflicts (f node) = (structureConflicts node).map (.map f) := by
  rw [ProgramTree.structureConflicts, ProgramTree.structureConflicts, ht.isInterface,
    ht.declaredInputs, List.isEmpty_map]
  split <;> rfl

end Arguments

section Conflicts

variable (hp : ∀ source ∈ program.sources, source.WellFormed)
  (ha : ∀ ancestor ∈ ancestors, ancestor.WellFormed)

include hp

theorem renamed_sources : ∀ source ∈ program.sources, source.Renamed name (f source) :=
  fun source hs => ht.renamed (hp source hs)

theorem indexOf? (text : String) :
    (program.translate name f).indexOf? (name text) = program.indexOf? text :=
  Program.indexOf?_translate ht.injective (ht.renamed_sources hp) text

theorem get? (text : String) :
    (program.translate name f).get? (name text) = (program.get? text).map f :=
  Program.get?_translate ht.injective (ht.renamed_sources hp) text

theorem definition? (text : String) :
    (Globals.ofProgram (program.translate name f)).definition? (name text) =
      ((Globals.ofProgram program).definition? text).map f := by
  have htop : (program.translate name f).sources.flatMap Node.topLevel =
      (program.sources.flatMap Node.topLevel).map f := by
    rw [Program.sources_translate, List.flatMap_map, List.map_flatMap]
    exact List.flatMap_congr fun source _ => ht.topLevel source
  rw [Globals.definition?_ofProgram, Globals.definition?_ofProgram, htop]
  refine find?_map_of_agree fun statement hs => ?_
  obtain ⟨source, hm, hstatement⟩ := List.mem_flatMap.mp hs
  rw [ht.kind, ht.declares ((hp source hm).of_mem_topLevel hstatement)]

theorem borrowConflicts (h : node.WellFormed) :
    (Globals.ofProgram (program.translate name f)).borrowConflicts (f node) =
      ((Globals.ofProgram program).borrowConflicts node).map (.map f) := by
  rw [Globals.borrowConflicts, Globals.borrowConflicts, ht.borrowedSource? h]
  cases node.borrowedSource? with
  | none => rfl
  | some text =>
    have hsource : (Globals.ofProgram (program.translate name f)).source? (name text) =
        ((Globals.ofProgram program).source? text).map f := ht.get? hp text
    simp only [Option.map_some, hsource, Option.isNone_map]
    split <;> rfl

include ha

theorem resolve? (text : String) :
    (Globals.ofProgram (program.translate name f)).resolve? (.around (ancestors.map f))
        (name text) =
      ((Globals.ofProgram program).resolve? (.around ancestors) text).map f := by
  rw [Globals.resolve?, Globals.resolve?, ht.lookup_around ha]
  cases (Scope.around ancestors).lookup text with
  | none => exact ht.definition? hp text
  | some binding => cases binding <;> rfl

theorem definitionOf? (h : node.WellFormed) :
    (Globals.ofProgram (program.translate name f)).definitionOf? (.around (ancestors.map f))
        (f node) =
      ((Globals.ofProgram program).definitionOf? (.around ancestors) node).map f := by
  rw [Globals.definitionOf?, Globals.definitionOf?, ht.kind]
  split
  next hk =>
    have hr : FieldRule.one "name" [.symbol .name] ∈ node.kind.grammar := by
      rw [hk]
      decide
    rw [ht.text_single? h hr rfl (by decide), Option.bind_map, Option.map_bind]
    congr 1
    funext text
    exact ht.resolve? hp ha text
  next => split <;> rfl

theorem evaluateConflicts (h : node.WellFormed) :
    (Globals.ofProgram (program.translate name f)).evaluateConflicts
        (.around (ancestors.map f)) (f node) =
      ((Globals.ofProgram program).evaluateConflicts (.around ancestors) node).map (.map f) := by
  rw [Globals.evaluateConflicts, Globals.evaluateConflicts, ht.single? node "fun" (by decide),
    ht.elements node "inputs" (by decide)]
  cases hf : node.single? "fun" with
  | none => rfl
  | some callee =>
    have hcallee := h.of_mem_children (Node.mem_children_of_single? hf)
    rw [Option.map_some, Option.bind_some, Option.bind_some, ht.definitionOf? hp ha hcallee]
    cases hd : (Globals.ofProgram program).definitionOf? (.around ancestors) callee with
    | none => rfl
    | some definition =>
      have hdefinition := Globals.wellFormed_of_definitionOf? hp ha hcallee hd
      exact ht.argumentConflicts hdefinition (fun _ hm => h.of_mem_elements hm) node

theorem binaryConflicts (h : node.WellFormed) (hk : node.kind = .binaryEvaluate) :
    (Globals.ofProgram (program.translate name f)).binaryConflicts
        (.around (ancestors.map f)) (f node) =
      ((Globals.ofProgram program).binaryConflicts (.around ancestors) node).map (.map f) := by
  have hr : FieldRule.one "operator" [.symbol .operator] ∈ node.kind.grammar := by
    rw [hk]
    decide
  have htext : ((f node).single? "operator").bind Node.text? =
      ((node.single? "operator").bind Node.text?).map name :=
    ht.text_single? h hr rfl (by decide)
  have hoperator : ((f node).single? "operator").bind
        ((Globals.ofProgram (program.translate name f)).operator? (.around (ancestors.map f))) =
      ((node.single? "operator").bind
        ((Globals.ofProgram program).operator? (.around ancestors))).map f := by
    unfold Globals.operator?
    rw [← Option.bind_assoc, ← Option.bind_assoc, htext, Option.bind_map, Option.map_bind]
    congr 1
    funext text
    exact ht.resolve? hp ha text
  rw [Globals.binaryConflicts, Globals.binaryConflicts, hoperator]
  cases (node.single? "operator").bind
    ((Globals.ofProgram program).operator? (.around ancestors)) with
  | none => rfl
  | some definition =>
    have hfilter : Node.isRequired ∘ f = Node.isRequired := funext ht.isRequired
    simp only [Option.map_some, ht.declaredInputs, ht.single? node "right" (by decide)]
    cases definition.declaredInputs with
    | nil => cases node.single? "right" <;> rfl
    | cons first rest =>
      simp [List.filter_map, hfilter, Conflict.map]

theorem conflictsAt (h : node.WellFormed) :
    (Globals.ofProgram (program.translate name f)).conflictsAt (.around (ancestors.map f))
        (f node) =
      ((Globals.ofProgram program).conflictsAt (.around ancestors) node).map (.map f) := by
  unfold Globals.conflictsAt
  rw [ht.kind]
  split
  next => exact ht.structureConflicts node
  next => exact ht.evaluateConflicts hp ha h
  next hk => exact ht.binaryConflicts hp ha h hk
  next => exact ht.borrowConflicts hp h
  next => rfl

/-- The conflicts of a translated tree are its conflicts, translated. Children that the translation
drops are documentation, and have none. -/
theorem conflictsWithin (h : node.WellFormed) :
    (Globals.ofProgram (program.translate name f)).conflictsWithin (ancestors.map f) (f node) =
      ((Globals.ofProgram program).conflictsWithin ancestors node).map (.map f) := by
  induction node using Node.induction_children generalizing ancestors with
  | step node ih =>
    obtain ⟨kept, hdocs, hchildren⟩ := ht.children node h
    have hbelow : ∀ ancestor ∈ ancestors ++ [node], ancestor.WellFormed := by
      intro ancestor hm
      rcases List.mem_append.mp hm with hm | hm
      · exact ha ancestor hm
      · exact List.mem_singleton.mp hm ▸ h
    have hnil : ∀ child ∈ node.children, kept child = false →
        (Globals.ofProgram program).conflictsWithin (ancestors ++ [node]) child = [] := by
      intro child hc hk
      have hprose : child.kind.isProse = true := by
        rw [hdocs child hc hk]
        rfl
      exact Globals.conflictsWithin_of_isProse _ _ (h.of_mem_children hc) hprose
    rw [Globals.conflictsWithin_eq, Globals.conflictsWithin_eq, ht.conflictsAt hp ha h, hchildren,
      List.map_append, ← flatMap_filter_of_nil hnil, List.flatMap_map, List.map_flatMap]
    congr 1
    refine List.flatMap_congr fun child hc => ?_
    have hm : child ∈ node.children := (List.mem_filter.mp hc).1
    have hchild := ih child hm hbelow (h.of_mem_children hm)
    rwa [List.map_append] at hchild

end Conflicts

theorem sourceConflicts (hp : ∀ source ∈ program.sources, source.WellFormed) {source : Node}
    (h : source.WellFormed) :
    (Globals.ofProgram (program.translate name f)).sourceConflicts (f source) =
      ((Globals.ofProgram program).sourceConflicts source).map (.map f) := by
  have hroot : ∀ ancestor ∈ ([] : List Node), ancestor.WellFormed := by simp
  rw [Globals.sourceConflicts_eq, Globals.sourceConflicts_eq]
  exact ht.conflictsWithin hp hroot h

end Translation

end ProgramTree
