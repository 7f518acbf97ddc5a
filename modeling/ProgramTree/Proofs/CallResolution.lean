import ProgramTree.Globals
import ProgramTree.Proofs.LexicalScope

namespace ProgramTree

namespace Program

/-- The definition that a name stands for under a chain of nodes: the one that the innermost
binding is of, and the first at the top level of a source where no node of the chain binds the
name. A name bound to a value stands for none. -/
inductive Denotes (program : Program) (ancestors : List Node) (name : String) : Node → Prop
  | enclosing {outer inner : List Node} {binder definition : Node}
      (ha : ancestors = outer ++ binder :: inner)
      (hb : binder.binding? name = some (.definition definition))
      (hi : ∀ node ∈ inner, node.binding? name = none) : Denotes program ancestors name definition
  | topLevel {before after : List Node} {definition : Node}
      (ha : ∀ node ∈ ancestors, node.binding? name = none)
      (hs : program.sources.flatMap Node.topLevel = before ++ definition :: after)
      (hk : definition.kind.isDefinition = true) (hd : definition.declares name = true)
      (hb : ∀ other ∈ before, other.kind.isDefinition = true → other.declares name = false) :
      Denotes program ancestors name definition

/-- The definition that a callee stands for: the one its name denotes, or the callee itself. -/
inductive Callee (program : Program) (ancestors : List Node) (callee : Node) : Node → Prop
  | named {name : String} {definition : Node} (hk : callee.kind = .reference)
      (hn : (callee.single? "name").bind Node.text? = some name)
      (hd : program.Denotes ancestors name definition) : Callee program ancestors callee definition
  | itself (hd : callee.kind.isDefinition = true) : Callee program ancestors callee callee

end Program

namespace Globals

variable {program : Program}

theorem definitions_ofProgram (program : Program) :
    (ofProgram program).definitions =
      ((program.sources.flatMap Node.topLevel).filter (·.kind.isDefinition)).foldl
        (fun table definition => table.bindAll definition.declaredNames definition) .empty := by
  rw [List.filter_flatMap, List.foldl_flatMap]
  rfl

theorem definition?_ofProgram (program : Program) (name : String) :
    (ofProgram program).definition? name =
      (program.sources.flatMap Node.topLevel).find? fun statement =>
        statement.kind.isDefinition && statement.declares name := by
  rw [definition?, definitions_ofProgram]
  refine (NameTable.get?_foldl_bindAll? Node.declaredNames some _ .empty name).trans ?_
  simp [NameTable.get?_empty, List.find?_filter, Node.declares]

theorem resolve?_eq_some_iff {ancestors : List Node} {name : String} {definition : Node} :
    (ofProgram program).resolve? (.around ancestors) name = some definition ↔
      program.Denotes ancestors name definition := by
  unfold resolve?
  constructor
  · intro h
    split at h
    next node hb =>
      cases h
      obtain ⟨outer, binder, inner, ha, hb, hi⟩ := Scope.lookup_around_eq_some_iff.mp hb
      exact .enclosing ha hb hi
    next => cases h
    next hn =>
      rw [definition?_ofProgram] at h
      obtain ⟨hd, before, after, hs, hb⟩ := List.find?_eq_some_iff_append.mp h
      simp only [Bool.and_eq_true] at hd
      refine .topLevel (Scope.lookup_around_eq_none_iff.mp hn) hs hd.1 hd.2 fun other ho hk => ?_
      simpa [hk] using hb other ho
  · rintro (⟨ha, hb, hi⟩ | ⟨ha, hs, hk, hd, hb⟩)
    · rw [Scope.lookup_around_eq_some_iff.mpr ⟨_, _, _, ha, hb, hi⟩]
    · rw [Scope.lookup_around_eq_none_iff.mpr ha, definition?_ofProgram]
      refine List.find?_eq_some_iff_append.mpr ⟨by simp [hk, hd], _, _, hs, fun other ho => ?_⟩
      cases hk : other.kind.isDefinition with
      | false => rfl
      | true => simp [hb other ho hk]

theorem definitionOf?_eq_some_iff {ancestors : List Node} {callee definition : Node} :
    (ofProgram program).definitionOf? (.around ancestors) callee = some definition ↔
      program.Callee ancestors callee definition := by
  unfold definitionOf?
  constructor
  · intro h
    split at h
    next hk =>
      obtain ⟨name, hn, hr⟩ := Option.bind_eq_some_iff.mp h
      exact .named hk hn (resolve?_eq_some_iff.mp hr)
    next =>
      split at h
      next hd =>
        cases h
        exact .itself hd
      next => cases h
  · rintro (⟨hk, hn, hd⟩ | hd)
    · rw [if_pos hk, hn]
      exact resolve?_eq_some_iff.mpr hd
    · have hk : callee.kind ≠ .reference := by
        intro hr
        rw [hr] at hd
        cases hd
      rw [if_neg hk, if_pos hd]

end Globals

end ProgramTree
