import ProgramTree.Edit

namespace ProgramTree

namespace Node

theorem same_self (node : Node) : node.same node = true := by
  simp [same]

theorem same_comm (a b : Node) : a.same b = b.same a :=
  BEq.comm

end Node

namespace Edit

/-- An edit applies to the content of a field and leaves another content there. In a list the
target is its first element that is the same node. -/
inductive Puts : Edit → Field Node → Field Node → Prop
  | single {child target : Node} (new : Node) (ht : target.same child = true) :
      Puts (.child (some target) (some new)) (.one child) (.one new)
  | absent (replacement : Option Node) :
      Puts (.child none replacement) (.optional none) (.optional replacement)
  | present {child target : Node} (replacement : Option Node) (ht : target.same child = true) :
      Puts (.child (some target) replacement) (.optional (some child)) (.optional replacement)
  | whole (nodes new : List Node) : Puts (.list new) (.list nodes) (.list new)
  | append (nodes : List Node) (replacement : Option Node) :
      Puts (.child none replacement) (.list nodes) (.list (nodes ++ replacement.toList))
  | element {before after : List Node} {child target : Node} (replacement : Option Node)
      (hb : ∀ other ∈ before, target.same other = false) (ht : target.same child = true) :
      Puts (.child (some target) replacement) (.list (before ++ child :: after))
        (.list (before ++ replacement.toList ++ after))

/-- Why an edit does not apply to the content of a field. -/
inductive Misses (kind : Kind) (name : String) : Edit → Field Node → EditError → Prop
  | notAList {nodes : List Node} {content : Field Node} (ha : content.arity ≠ .list) :
      Misses kind name (.list nodes) content (.notAList kind name)
  | single {child : Node} {target replacement : Option Node}
      (ht : ∀ original ∈ target, original.same child = false) :
      Misses kind name (.child target replacement) (.one child) (.targetNotFound kind name)
  | optional {present target replacement : Option Node}
      (ht : Node.sameOption target present = false) :
      Misses kind name (.child target replacement) (.optional present) (.targetNotFound kind name)
  | element {nodes : List Node} {target : Node} {replacement : Option Node}
      (ht : ∀ node ∈ nodes, target.same node = false) :
      Misses kind name (.child (some target) replacement) (.list nodes) (.targetNotFound kind name)
  | missing {child target : Node} (ht : target.same child = true) :
      Misses kind name (.child (some target) none) (.one child) (.shape (.missing kind name))

variable {kind : Kind} {name : String} {edit : Edit} {content new : Field Node} {error : EditError}

theorem Puts.arity_eq (h : edit.Puts content new) : new.arity = content.arity := by
  cases h <;> rfl

theorem Puts.edit_eq (h : edit.Puts content new) : content.edit kind name edit = .ok new := by
  cases h with
  | single new ht => simp [Field.edit, ht]
  | absent => simp [Field.edit, Node.sameOption]
  | present replacement ht => simp [Field.edit, Node.sameOption, ht]
  | whole | append => rfl
  | @element before after child target replacement hb ht =>
    have hfind : (before ++ child :: after).findIdx? (·.same target) = some before.length := by
      rw [List.findIdx?_eq_some_iff_getElem]
      refine ⟨by simp, ?_, fun index hi => ?_⟩
      · simpa using (child.same_comm target).trans ht
      · rw [List.getElem_append_left hi]
        simpa using (Node.same_comm ..).trans (hb _ (List.getElem_mem hi))
    simp [Field.edit, hfind]

theorem Misses.edit_eq (h : edit.Misses kind name content error) :
    content.edit kind name edit = .error error := by
  cases h with
  | notAList ha =>
    cases content with
    | one | optional => rfl
    | list => cases ha rfl
  | @single child target replacement ht =>
    cases target with
    | none => simp [Field.edit]
    | some original => simp [Field.edit, ht original rfl]
  | optional ht => simp [Field.edit, ht]
  | @element nodes target replacement ht =>
    have hnone : nodes.findIdx? (·.same target) = none := by
      rw [List.findIdx?_eq_none_iff]
      intro node hn
      exact (node.same_comm target).trans (ht node hn)
    simp [Field.edit, hnone]
  | missing ht => simp [Field.edit, ht]

theorem puts_or_misses (kind : Kind) (name : String) (edit : Edit) (content : Field Node) :
    (∃ new, edit.Puts content new) ∨ ∃ error, edit.Misses kind name content error := by
  cases edit with
  | list nodes =>
    cases content with
    | one | optional => exact .inr ⟨_, .notAList (by simp [Field.arity])⟩
    | list old => exact .inl ⟨_, .whole old nodes⟩
  | child target replacement =>
    cases content with
    | one child =>
      cases target with
      | none => exact .inr ⟨_, .single (by simp)⟩
      | some target =>
        cases ht : target.same child with
        | false => exact .inr ⟨_, .single (by simpa using ht)⟩
        | true =>
          cases replacement with
          | none => exact .inr ⟨_, .missing ht⟩
          | some new => exact .inl ⟨_, .single new ht⟩
    | optional present =>
      cases ht : Node.sameOption target present with
      | false => exact .inr ⟨_, .optional ht⟩
      | true =>
        cases target <;> cases present <;> first | cases ht | skip
        · exact .inl ⟨_, .absent replacement⟩
        · exact .inl ⟨_, .present replacement ht⟩
    | list nodes =>
      cases target with
      | none => exact .inl ⟨_, .append nodes replacement⟩
      | some target =>
        cases hf : nodes.find? (target.same ·) with
        | none =>
          refine .inr ⟨_, .element fun node hn => ?_⟩
          simpa using List.find?_eq_none.mp hf node hn
        | some child =>
          obtain ⟨ht, before, after, rfl, hb⟩ := List.find?_eq_some_iff_append.mp hf
          exact .inl ⟨_, .element replacement (fun other ho => by simpa using hb other ho) ht⟩

theorem edit_eq_ok_iff : content.edit kind name edit = .ok new ↔ edit.Puts content new := by
  constructor
  · intro h
    rcases puts_or_misses kind name edit content with ⟨other, hp⟩ | ⟨error, hm⟩
    · cases hp.edit_eq.symm.trans h
      exact hp
    · cases hm.edit_eq.symm.trans h
  · exact Puts.edit_eq

end Edit

end ProgramTree
