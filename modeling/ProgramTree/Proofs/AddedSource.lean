import Mathlib.Data.List.Flatten
import ProgramTree.Proofs.FoundConflicts
import ProgramTree.Proofs.NamesApart
import ProgramTree.Proofs.Parts

namespace ProgramTree

namespace Globals

variable {small large globals : Globals} {scope : Scope} {node definition : Node}
  {conflict : Conflict}

/-- What has a definition keeps it, and what has a source has one still. -/
structure Extends (small large : Globals) : Prop where
  definition : ∀ {name definition}, small.definition? name = some definition →
    large.definition? name = some definition
  source : ∀ {name source}, small.source? name = some source → large.source? name = some source

namespace Extends

theorem resolve? (h : small.Extends large) {name : String}
    (hd : small.resolve? scope name = some definition) :
    large.resolve? scope name = some definition := by
  unfold Globals.resolve? at hd ⊢
  split at hd
  next => exact hd
  next => cases hd
  next => exact h.definition hd

theorem definitionOf? (h : small.Extends large)
    (hd : small.definitionOf? scope node = some definition) :
    large.definitionOf? scope node = some definition := by
  unfold Globals.definitionOf? at hd ⊢
  split at hd
  next hr =>
    obtain ⟨name, hn, hres⟩ := Option.bind_eq_some_iff.mp hd
    rw [if_pos hr, hn]
    exact h.resolve? hres
  next hr =>
    rw [if_neg hr]
    exact hd

theorem operator? (h : small.Extends large) (hd : small.operator? scope node = some definition) :
    large.operator? scope node = some definition := by
  obtain ⟨name, hn, hr⟩ := Option.bind_eq_some_iff.mp hd
  exact Option.bind_eq_some_iff.mpr ⟨name, hn, h.resolve? hr⟩

theorem evaluateConflicts (h : small.Extends large) (scope : Scope) (node : Node) :
    (small.evaluateConflicts scope node).Sublist (large.evaluateConflicts scope node) := by
  unfold Globals.evaluateConflicts
  cases hd : (node.single? "fun").bind (small.definitionOf? scope) with
  | none => exact List.nil_sublist _
  | some definition =>
    obtain ⟨callee, hf, hc⟩ := Option.bind_eq_some_iff.mp hd
    rw [hf, Option.bind_some, h.definitionOf? hc]

theorem binaryConflicts (h : small.Extends large) (scope : Scope) (node : Node) :
    (small.binaryConflicts scope node).Sublist (large.binaryConflicts scope node) := by
  unfold Globals.binaryConflicts
  cases hd : (node.single? "operator").bind (small.operator? scope) with
  | none => exact List.nil_sublist _
  | some definition =>
    obtain ⟨operator, ho, hc⟩ := Option.bind_eq_some_iff.mp hd
    rw [ho, Option.bind_some, h.operator? hc]

theorem borrowConflicts (h : small.Extends large) (node : Node) :
    (large.borrowConflicts node).Sublist (small.borrowConflicts node) := by
  unfold Globals.borrowConflicts
  cases node.borrowedSource? with
  | none => exact List.Sublist.refl _
  | some name =>
    cases hs : small.source? name with
    | none =>
      simp only [hs, Option.isNone_none, if_true]
      split
      · exact List.Sublist.refl _
      · exact List.nil_sublist _
    | some source => simp [h.source hs]

theorem conflictsAt_inputs (h : small.Extends large) (scope : Scope) (node : Node) :
    ((small.conflictsAt scope node).filter (·.isOfInputs)).Sublist
      ((large.conflictsAt scope node).filter (·.isOfInputs)) := by
  by_cases hk : node.kind = .borrow
  · have hnil : (small.conflictsAt scope node).filter (·.isOfInputs) = [] := by
      rw [conflictsAt_of_borrow hk, List.filter_eq_nil_iff]
      intro conflict hm
      rw [eq_unknownBorrow_of_mem hm]
      simp [Conflict.isOfInputs]
    rw [hnil]
    exact List.nil_sublist _
  · apply List.Sublist.filter
    unfold conflictsAt
    split
    next => exact List.Sublist.refl _
    next => exact h.evaluateConflicts scope node
    next => exact h.binaryConflicts scope node
    next hb => exact (hk hb).elim
    next => exact List.Sublist.refl _

theorem conflictsAt_borrows (h : small.Extends large) (scope : Scope) (node : Node) :
    ((large.conflictsAt scope node).filter (·.isUnknownBorrow)).Sublist
      ((small.conflictsAt scope node).filter (·.isUnknownBorrow)) := by
  by_cases hk : node.kind = .borrow
  · rw [conflictsAt_of_borrow hk, conflictsAt_of_borrow hk]
    exact (h.borrowConflicts node).filter _
  · rw [filter_isUnknownBorrow_of_kind_ne hk]
    exact List.nil_sublist _

/-- More calls can be checked when more names are known, and the conflicts of the others stay. -/
theorem sourceConflicts_inputs (h : small.Extends large) (source : Node) :
    ((small.sourceConflicts source).filter (·.isOfInputs)).Sublist
      ((large.sourceConflicts source).filter (·.isOfInputs)) := by
  rw [sourceConflicts, sourceConflicts, List.filter_flatMap, List.filter_flatMap]
  exact .flatMap_right _ fun visit _ => h.conflictsAt_inputs visit.2 visit.1

/-- Fewer borrows are unknown when more sources are known. -/
theorem sourceConflicts_borrows (h : small.Extends large) (source : Node) :
    ((large.sourceConflicts source).filter (·.isUnknownBorrow)).Sublist
      ((small.sourceConflicts source).filter (·.isUnknownBorrow)) := by
  rw [sourceConflicts, sourceConflicts, List.filter_flatMap, List.filter_flatMap]
  exact .flatMap_right _ fun visit _ => h.conflictsAt_borrows visit.2 visit.1

end Extends

end Globals

namespace Program

/-- What stays of an analysis in a larger program. -/
structure GrowsTo (program after : Program) : Prop where
  inputs : ∀ source ∈ program.sources,
    (((Globals.ofProgram program).sourceConflicts source).filter (·.isOfInputs)).Sublist
      (((Globals.ofProgram after).sourceConflicts source).filter (·.isOfInputs))
  unknown : ∀ source ∈ program.sources,
    (((Globals.ofProgram after).sourceConflicts source).filter (·.isUnknownBorrow)).Sublist
      (((Globals.ofProgram program).sourceConflicts source).filter (·.isUnknownBorrow))
  resolved : ∀ borrow target : Node, borrow.borrowedSource?.bind program.get? = some target →
    borrow.borrowedSource?.bind after.get? = some target
  cycles : program.borrowCycles ≠ [] → after.borrowCycles ≠ []

variable {given : Node → Prop} {program after : Program} {source : Node}

section Apart

variable (hp : Keyed given program) (hq : Keyed given after)
  (hs : after.sources = program.sources ++ [source])
  (ha : ∀ other ∈ program.sources, source.Apart other)

include hs in
theorem definition?_of_append {name : String} {definition : Node}
    (hd : (Globals.ofProgram program).definition? name = some definition) :
    (Globals.ofProgram after).definition? name = some definition := by
  rw [Globals.definition?_ofProgram] at hd ⊢
  rw [hs, List.flatMap_append, List.find?_append, hd, Option.some_or]

include hp hq hs ha

/-- A new source does not come in between a name and the source that has it. -/
theorem get?_of_append {name : String} {target : Node} (hg : program.get? name = some target) :
    after.get? name = some target := by
  rw [hp.get?_eq] at hg
  rw [hq.get?_eq, hs, List.find?_append, List.find?_append]
  rcases Option.or_eq_some_iff.mp hg with hprimary | ⟨hnone, hdeclares⟩
  · rw [hprimary, Option.some_or, Option.some_or]
  · have htarget : target.declares name = true := by
      simpa using List.find?_some hdeclares
    have hfalse : source.declares name = false :=
      (ha target (List.mem_of_find?_eq_some hdeclares)).symm name htarget
    have hother : source.primaryName? ≠ some name := by
      intro hn
      rw [declares_of_primaryName? hn] at hfalse
      cases hfalse
    have hmiss : [source].find? (·.primaryName? == some name) = none := by simp [hother]
    rw [hnone, hmiss, Option.or_none, Option.none_or, hdeclares, Option.some_or]

theorem extends_of_append : (Globals.ofProgram program).Extends (Globals.ofProgram after) :=
  ⟨definition?_of_append hs, get?_of_append hp hq hs ha⟩

theorem borrowCycles_of_append (hc : program.borrowCycles ≠ []) : after.borrowCycles ≠ [] := by
  intro hnil
  have hacyclic := hq.borrowCycles_eq_nil_iff_sources.mp hnil
  refine hc (hp.borrowCycles_eq_nil_iff_sources.mpr fun member hcircle => ?_)
  have hborrows : ∀ a b, program.BorrowsSource a b → after.BorrowsSource a b := by
    rintro a b ⟨hm, borrow, hb, name, hn, hg⟩
    have hmem : a ∈ after.sources := by
      rw [hs]
      exact List.mem_append_left _ hm
    exact ⟨hmem, borrow, hb, name, hn, get?_of_append hp hq hs ha hg⟩
  exact hacyclic member (Relation.TransGen.mono hborrows member member hcircle)

end Apart

/-- A source of new names can be added at the end. The conflicts about inputs stay, in order,
no other borrow becomes unknown, borrows find the sources that they found, and circles stay. -/
theorem insert_growsTo (hp : program.Reachable Node.WellFormed) (hs : source.WellFormed)
    (hk : source.kind = .source) (ha : ∀ other ∈ program.sources, source.Apart other) :
    ∃ after, program.insert source = .ok after ∧ after.sources = program.sources ++ [source] ∧
      program.GrowsTo after := by
  obtain ⟨name, hn⟩ := hs.exists_primaryName? hk
  have hi := insert_of_apart hp.keyed hk hn ha
  have hq := hp.keyed.insert hs hi
  refine ⟨_, hi, by simp [sources], ?_⟩
  have happend : Program.sources ⟨program.entries ++ [(name, source)]⟩ =
      program.sources ++ [source] := by simp [sources]
  have hextends := extends_of_append hp.keyed hq happend ha
  refine ⟨fun source _ => hextends.sourceConflicts_inputs source,
    fun source _ => hextends.sourceConflicts_borrows source, fun borrow target hb => ?_,
    borrowCycles_of_append hp.keyed hq happend ha⟩
  obtain ⟨name, hborrow, hg⟩ := Option.bind_eq_some_iff.mp hb
  exact Option.bind_eq_some_iff.mpr ⟨name, hborrow, get?_of_append hp.keyed hq happend ha hg⟩

/-- A structure is added to a program in which a call lacks an input and a source borrows from
itself. -/
theorem insert_growsTo_closedSource :
    ∃ after, Program.insert ⟨[("b", openSource), ("c", callingSource), ("d", borrowingSource)]⟩
        closedSource = .ok after ∧
      after.sources = [openSource, callingSource, borrowingSource, closedSource] ∧
      GrowsTo ⟨[("b", openSource), ("c", callingSource), ("d", borrowingSource)]⟩ after := by
  have hmade : Program.ofSources [openSource, callingSource, borrowingSource] =
      .ok ⟨[("b", openSource), ("c", callingSource), ("d", borrowingSource)]⟩ := rfl
  have hreachable := reachable_contending hmade (by simp [contendingSources])
  have hclosed := made_contending closedSource (by simp [contendingSources])
  refine insert_growsTo (hreachable.mono fun _ hm => hm.2) hclosed.2 rfl ?_
  intro other ho name hd
  have hnames : closedSource.declaredNames = ["a"] := rfl
  have hothers : openSource.declaredNames = ["b"] ∧ callingSource.declaredNames = ["c"] ∧
      borrowingSource.declaredNames = ["d", "x"] := ⟨rfl, rfl, rfl⟩
  simp only [sources, List.map_cons, List.map_nil, List.mem_cons, List.not_mem_nil,
    or_false] at ho
  rcases ho with rfl | rfl | rfl <;> simp_all [Node.declares]

end Program

end ProgramTree
