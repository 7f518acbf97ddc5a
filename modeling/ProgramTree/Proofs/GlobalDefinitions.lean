import Mathlib.Data.Finset.Card
import ProgramTree.Proofs.CallResolution

namespace ProgramTree

namespace NameTable

variable {α β : Type} {table : NameTable α}

theorem isSome_get?_iff (table : NameTable α) (name : String) :
    (table.get? name).isSome = true ↔ name ∈ table.entries.map (·.1) := by
  simp [get?, List.lookup_isSome_iff]

/-- No name is bound twice. -/
def Distinct (table : NameTable α) : Prop :=
  (table.entries.map (·.1)).Nodup

theorem distinct_empty : (empty : NameTable α).Distinct :=
  List.nodup_nil

theorem Distinct.bind (h : table.Distinct) (name : String) (value : α) :
    (table.bind name value).Distinct := by
  unfold NameTable.bind
  split
  next => exact h
  next hn =>
    rw [isSome_get?_iff] at hn
    rw [Distinct, List.map_append, List.nodup_append]
    refine ⟨h, List.nodup_singleton _, ?_⟩
    rintro bound hb _ hadded rfl
    cases List.mem_singleton.mp hadded
    exact hn hb

theorem Distinct.bindAll (h : table.Distinct) (names : List String) (value : α) :
    (table.bindAll names value).Distinct := by
  unfold NameTable.bindAll
  induction names generalizing table with
  | nil => exact h
  | cons name rest ih => exact ih (h.bind name value)

theorem Distinct.foldl_bindAll (h : table.Distinct) (names : β → List String) (value : β → α)
    (items : List β) :
    (items.foldl (fun table item => table.bindAll (names item) (value item)) table).Distinct := by
  induction items generalizing table with
  | nil => exact h
  | cons item rest ih => exact ih (h.bindAll (names item) (value item))

/-- A table has as many entries as there are names that it binds. -/
theorem Distinct.size_eq (h : table.Distinct) {names : List String}
    (hn : ∀ name, (table.get? name).isSome = true ↔ name ∈ names) :
    table.size = names.toFinset.card := by
  have hkeys : (table.entries.map (·.1)).toFinset = names.toFinset := by
    ext name
    rw [List.mem_toFinset, List.mem_toFinset, ← isSome_get?_iff, hn]
  rw [← hkeys, List.toFinset_card_of_nodup h, List.length_map, size]

end NameTable

namespace Scope

/-- The innermost of the frames that bind the name binds it so. -/
def Binds (scope : Scope) (name : String) (binding : Binding) : Prop :=
  ∃ inner frame outer, scope = inner ++ frame :: outer ∧ frame.get? name = some binding ∧
    ∀ other ∈ inner, other.get? name = none

def Free (scope : Scope) (name : String) : Prop :=
  ∀ frame ∈ scope, frame.get? name = none

variable {scope : Scope} {name : String} {binding : Binding}

theorem lookup_eq_some_iff : scope.lookup name = some binding ↔ scope.Binds name binding := by
  rw [lookup, List.findSome?_eq_some_iff]
  rfl

theorem lookup_eq_none_iff : scope.lookup name = none ↔ scope.Free name :=
  List.findSome?_eq_none_iff

end Scope

namespace Program

/-- The definition is the first one of the name among the statements at the top level: no source
before its own has one, and no statement before it in its own source is one. -/
inductive Defines (program : Program) (name : String) : Node → Prop
  | first {earlier later before after : List Node} {source definition : Node}
      (hs : program.sources = earlier ++ source :: later)
      (ht : source.topLevel = before ++ definition :: after)
      (hk : definition.kind.isDefinition = true) (hd : definition.declares name = true)
      (he : ∀ other ∈ earlier, ∀ statement ∈ other.topLevel,
        statement.kind.isDefinition = true → statement.declares name = false)
      (hb : ∀ statement ∈ before,
        statement.kind.isDefinition = true → statement.declares name = false) :
      Defines program name definition

/-- The names of all definitions at the top level, as often as they are declared. -/
def definedNames (program : Program) : List String :=
  ((program.sources.flatMap Node.topLevel).filter (·.kind.isDefinition)).flatMap
    Node.declaredNames

/-- What a name stands for in a scope: the definition or value that it is bound to, and without a
binding the first definition at the top level. A value is no definition. -/
inductive Resolves (program : Program) (scope : Scope) (name : String) : Option Node → Prop
  | definition {node : Node} (hb : scope.Binds name (.definition node)) :
      Resolves program scope name (some node)
  | value (hb : scope.Binds name .value) : Resolves program scope name none
  | topLevel {node : Node} (hf : scope.Free name) (hd : program.Defines name node) :
      Resolves program scope name (some node)
  | nothing (hf : scope.Free name) (hd : ∀ node, ¬ program.Defines name node) :
      Resolves program scope name none

/-- What an expression stands for in a scope: a reference for what its name stands for, and a
definition for itself. -/
inductive Means (program : Program) (scope : Scope) (expression : Node) : Option Node → Prop
  | reference {name : String} {answer : Option Node} (hk : expression.kind = .reference)
      (hn : (expression.single? "name").bind Node.text? = some name)
      (hr : program.Resolves scope name answer) : Means program scope expression answer
  | itself (hk : expression.kind.isDefinition = true) :
      Means program scope expression (some expression)
  | nothing (hk : expression.kind.isDefinition = false)
      (hn : expression.kind = .reference → (expression.single? "name").bind Node.text? = none) :
      Means program scope expression none

end Program

namespace Globals

variable {program : Program} {scope : Scope} {name : String} {definition : Node}
  {answer : Option Node}

theorem definition?_eq_some_iff :
    (ofProgram program).definition? name = some definition ↔ program.Defines name definition := by
  rw [definition?_ofProgram, List.find?_flatMap, List.findSome?_eq_some_iff]
  constructor
  · rintro ⟨earlier, source, later, hs, hd, he⟩
    obtain ⟨htest, before, after, ht, hb⟩ := List.find?_eq_some_iff_append.mp hd
    rw [Bool.and_eq_true] at htest
    refine .first hs ht htest.1 htest.2 (fun other ho statement hm hk => ?_)
      fun statement hm hk => ?_
    · simpa [hk] using List.find?_eq_none.mp (he other ho) statement hm
    · simpa [hk] using hb statement hm
  · rintro ⟨hs, ht, hk, hd, he, hb⟩
    refine ⟨_, _, _, hs, ?_, fun other ho => List.find?_eq_none.mpr fun statement hm => ?_⟩
    · refine List.find?_eq_some_iff_append.mpr ⟨by simp [hk, hd], _, _, ht, fun other ho => ?_⟩
      cases hkind : other.kind.isDefinition with
      | false => rfl
      | true => simp [hb other ho hkind]
    · rw [Bool.and_eq_true]
      rintro ⟨hkind, hdeclares⟩
      rw [he other ho statement hm hkind] at hdeclares
      cases hdeclares

theorem definition?_eq_none_iff :
    (ofProgram program).definition? name = none ↔
      ∀ source ∈ program.sources, ∀ statement ∈ source.topLevel,
        statement.kind.isDefinition = true → statement.declares name = false := by
  rw [definition?_ofProgram, List.find?_eq_none]
  simp only [List.mem_flatMap, Bool.and_eq_true, not_and, Bool.not_eq_true, forall_exists_index,
    and_imp]
  constructor
  · intro h source hs statement hm
    exact h statement source hs hm
  · intro h statement source hs hm
    exact h source hs statement hm

theorem definitionCount_ofProgram (program : Program) :
    (ofProgram program).definitionCount = program.definedNames.toFinset.card := by
  rw [definitionCount]
  have hdistinct : (ofProgram program).definitions.Distinct := by
    rw [definitions_ofProgram]
    exact NameTable.distinct_empty.foldl_bindAll Node.declaredNames id _
  refine hdistinct.size_eq fun name => ?_
  change ((ofProgram program).definition? name).isSome = true ↔ _
  rw [definition?_ofProgram, List.find?_isSome]
  simp [Program.definedNames, Node.declares, and_assoc]

theorem resolve?_eq_iff :
    (ofProgram program).resolve? scope name = answer ↔ program.Resolves scope name answer := by
  constructor
  · rintro rfl
    unfold resolve?
    split
    next hb => exact .definition (Scope.lookup_eq_some_iff.mp hb)
    next hb => exact .value (Scope.lookup_eq_some_iff.mp hb)
    next hf =>
      cases hd : (ofProgram program).definition? name with
      | some node =>
        exact .topLevel (Scope.lookup_eq_none_iff.mp hf) (definition?_eq_some_iff.mp hd)
      | none =>
        refine .nothing (Scope.lookup_eq_none_iff.mp hf) fun node hdefines => ?_
        cases hd.symm.trans (definition?_eq_some_iff.mpr hdefines)
  · unfold resolve?
    rintro (hb | hb | ⟨hf, hd⟩ | ⟨hf, hd⟩)
    · rw [Scope.lookup_eq_some_iff.mpr hb]
    · rw [Scope.lookup_eq_some_iff.mpr hb]
    · rw [Scope.lookup_eq_none_iff.mpr hf]
      exact definition?_eq_some_iff.mpr hd
    · rw [Scope.lookup_eq_none_iff.mpr hf]
      exact Option.eq_none_iff_forall_ne_some.mpr fun node hnode =>
        hd node (definition?_eq_some_iff.mp hnode)

theorem definitionOf?_eq_iff {expression : Node} :
    (ofProgram program).definitionOf? scope expression = answer ↔
      program.Means scope expression answer := by
  constructor
  · rintro rfl
    unfold definitionOf?
    split
    next hk =>
      cases hn : (expression.single? "name").bind Node.text? with
      | some name => exact .reference hk hn (resolve?_eq_iff.mp rfl)
      | none => exact .nothing (by rw [hk]; rfl) fun _ => hn
    next hk =>
      split
      next hd => exact .itself hd
      next hd => exact .nothing (by simpa using hd) fun hr => (hk hr).elim
  · unfold definitionOf?
    rintro (⟨hk, hn, hr⟩ | hk | ⟨hk, hn⟩)
    · rw [if_pos hk, hn]
      exact resolve?_eq_iff.mpr hr
    · have hr : expression.kind ≠ .reference := by
        intro hr
        rw [hr] at hk
        cases hk
      rw [if_neg hr, if_pos hk]
    · split
      next hr => rw [hn hr, Option.bind_none]
      next => simp [hk]

theorem operator?_eq_iff {operator : Node} :
    (ofProgram program).operator? scope operator = answer ↔
      (∃ name, operator.text? = some name ∧ program.Resolves scope name answer) ∨
        operator.text? = none ∧ answer = none := by
  rw [operator?]
  cases operator.text? with
  | some name => simp [resolve?_eq_iff]
  | none => simp [eq_comm]

/-- A name is looked up as the first definition at the top level of the sources that declares it,
in the order of sources and statements, and names are counted once each. References and operators
stand for what the scope binds their names to, and for the global definition where it does not. -/
theorem ofProgram_lookups (program : Program) :
    (∀ name definition, (ofProgram program).definition? name = some definition ↔
      program.Defines name definition) ∧
    (∀ name, (ofProgram program).definition? name = none ↔
      ∀ source ∈ program.sources, ∀ statement ∈ source.topLevel,
        statement.kind.isDefinition = true → statement.declares name = false) ∧
    (ofProgram program).definitionCount = program.definedNames.toFinset.card ∧
    (∀ scope expression answer, (ofProgram program).definitionOf? scope expression = answer ↔
      program.Means scope expression answer) ∧
    ∀ scope operator answer, (ofProgram program).operator? scope operator = answer ↔
      (∃ name, operator.text? = some name ∧ program.Resolves scope name answer) ∨
        operator.text? = none ∧ answer = none :=
  ⟨fun _ _ => definition?_eq_some_iff, fun _ => definition?_eq_none_iff,
    definitionCount_ofProgram program, fun _ _ _ => definitionOf?_eq_iff,
    fun _ _ _ => operator?_eq_iff⟩

end Globals

end ProgramTree
