import ProgramTree.Proofs.FieldOutcomes
import ProgramTree.Proofs.SpineEdits

namespace ProgramTree

theorem Construct.ofExcept_eq_ok {ε α : Type} {result : Except ε α} {a : α} {next after : Nat}
    (h : (MonadExcept.ofExcept result : Construct ε α) next = .ok a after) : result = .ok a := by
  cases result with
  | ok value =>
    cases h
    rfl
  | error error => cases h

namespace Kind

/-- The kinds whose delimiters may be left out, both at once. -/
def isDelimited : Kind → Bool
  | block | structureDefinition | words => true
  | _ => false

def delimiters : List String :=
  ["open", "close"]

variable {kind : Kind} {rule half : FieldRule} {pair back : Pair}

/-- A token can stand in for each delimiter, beside the other one. -/
theorem delimiter_rules (kind : Kind) (h : kind.isDelimited = true) :
    ∀ name ∈ delimiters, ∃ rule ∈ kind.grammar, rule.name = name ∧
      ∃ pair ∈ rule.shape.pair?, pair.fallback.isSome = true ∧ pair.sibling ∈ delimiters := by
  revert h
  cases kind <;> decide

theorem exists_delimiter (h : kind.isDelimited = true) {name : String} (hn : name ∈ delimiters) :
    ∃ rule pair half back, kind.Halves rule pair half back ∧ rule.name = name := by
  obtain ⟨rule, hr, hname, pair, hp, _⟩ := kind.delimiter_rules h name hn
  obtain ⟨half, back, hh⟩ := exists_halves hr hp
  exact ⟨rule, pair, half, back, hh, hname⟩

namespace Halves

theorem of_delimiter (hh : kind.Halves rule pair half back) (h : kind.isDelimited = true)
    (hn : rule.name ∈ delimiters) : half.name ∈ delimiters ∧ pair.fallback.isSome = true := by
  obtain ⟨other, ho, hname, opposite, hp, hf, hs⟩ := kind.delimiter_rules h rule.name hn
  obtain rfl := eq_of_name_eq hh.rule_mem ho hname
  obtain rfl := Option.some.inj (hh.pair_eq.symm.trans hp)
  exact ⟨hh.sibling ▸ hs, hf⟩

/-- The two halves of a pair of delimiters are all the delimiters. -/
theorem eq_or_eq_of_delimiter (hh : kind.Halves rule pair half back) (h : kind.isDelimited = true)
    (hn : rule.name ∈ delimiters) {name : String} (ho : name ∈ delimiters) :
    name = rule.name ∨ name = half.name := by
  have hhalf := (hh.of_delimiter h hn).1
  have hne := hh.ne
  simp only [delimiters, List.mem_cons, List.not_mem_nil, or_false] at hn hhalf ho
  grind

end Halves

end Kind

namespace Node

variable {node result start : Node} {name : String} {edit : Edit} {next after : Nat}
  {rule half : FieldRule} {pair back : Pair}

/-- A sequence of edits of a node, one field at a time, that all succeeded. -/
inductive Edits : Node → Node → Prop
  | refl (node : Node) : Edits node node
  | step {start node result : Node} {name : String} {edit : Edit} {next after : Nat}
      (h : Edits start node) (hh : ∀ handle ∈ edit.handles, handle.WellFormed)
      (he : node.replace name edit next = .ok result after) : Edits start result

/-- Both delimiters of the node are present. -/
def Delimited (node : Node) : Prop :=
  ∀ name ∈ Kind.delimiters, ∃ token, node.field? name = some (.optional (some token))

theorem kind_ne_token_of_rule? (h : node.kind.rule? name = some rule) : node.kind ≠ .token := by
  intro hk
  rw [hk] at h
  cases h

/-- The answer of an edit fits its kind by itself. -/
theorem fits_of_replace (h : node.replace name edit next = .ok result after) :
    result.kind.Fits result.fields := by
  obtain ⟨fields, middle, h⟩ := exists_assemble_of_replace h
  obtain ⟨arranged, _, harranged, h⟩ := Construct.exists_of_bind_ok h
  obtain ⟨_, _, hchecked, h⟩ := Construct.exists_of_bind_ok h
  cases h
  have hnames := mapError_eq_ok_iff.mp (Construct.ofExcept_eq_ok harranged)
  have hcheck := mapError_eq_ok_iff.mp (Construct.ofExcept_eq_ok hchecked)
  exact Kind.fits_iff.mpr ⟨Kind.map_fst_arrange hnames, hcheck⟩

theorem forall_nodes_assign {P : Node → Prop} {content : Field Node} {fields : Fields}
    (hc : ∀ node ∈ content.nodes, P node) (hf : ∀ node ∈ fields.nodes, P node) :
    ∀ node ∈ Fields.nodes (Fields.assign name content fields), P node := by
  intro node hn
  rcases List.mem_append.mp (Fields.nodes_assign_subset name content fields hn) with hn | hn
  · exact hc node hn
  · exact hf node hn

/-- An edit that brings well-formed nodes leaves a node well formed. -/
theorem WellFormed.of_replace (h : node.WellFormed)
    (hh : ∀ handle ∈ edit.handles, handle.WellFormed)
    (he : node.replace name edit next = .ok result after) : result.WellFormed := by
  have hfits := fits_of_replace he
  have hchildren : ∀ child ∈ node.fields.nodes, child.WellFormed :=
    fun child hc => h.of_mem_children hc
  have hput : ∀ content new, node.field? name = some content → edit.Puts content new →
      ∀ child ∈ new.nodes, child.WellFormed := by
    intro content new hf hp child hc
    have hedit : content.edit node.kind name edit = .ok new := hp.edit_eq
    rcases List.mem_append.mp (Field.nodes_edit_subset hedit hc) with hc | hc
    · exact hh child hc
    · exact h.of_mem_children (mem_children_of_field? hf hc)
  have hstand : ∀ rule : FieldRule, ∀ present next stand, rule.StandsFor present next stand →
      ∀ child ∈ (Field.optional (some stand)).nodes, child.WellFormed := by
    rintro rule present next stand ⟨⟩ child hc
    obtain rfl := List.mem_singleton.mp hc
    exact .token ..
  cases h.replace_eq_ok_iff.mp he with
  | plain hr hf hp =>
    exact .tree (kind_ne_token_of_rule? hr) hfits (forall_nodes_assign (hput _ _ hf hp) hchildren)
  | released hr hs hf hp =>
    exact .tree (kind_ne_token_of_rule? hr) hfits (forall_nodes_assign (by simp [Field.nodes])
      (forall_nodes_assign (by simp [Field.nodes]) hchildren))
  | restored hr hs hf hp hpresent ht =>
    exact .tree (kind_ne_token_of_rule? hr) hfits
      (forall_nodes_assign (hstand _ _ _ _ ht) hchildren)
  | completed hr hs hhalf hf hp ha ht =>
    exact .tree (kind_ne_token_of_rule? hr) hfits (forall_nodes_assign (hstand _ _ _ _ ht)
      (forall_nodes_assign (hput _ _ hf hp) hchildren))

namespace Edits

theorem kind_eq (h : start.Edits result) : result.kind = start.kind := by
  induction h with
  | refl => rfl
  | step _ _ he ih => exact (kind_of_replace he).1.trans ih

theorem wellFormed (h : start.Edits result) (hw : start.WellFormed) : result.WellFormed := by
  induction h with
  | refl => exact hw
  | step _ hh he ih => exact ih.of_replace hh he

end Edits

/-- A half that a token can stand in for stays present through every edit of the node. -/
theorem Framed.exists_half (h : node.Framed name edit next result)
    (hh : node.kind.Halves rule pair half back) (hf : pair.fallback.isSome = true)
    (hb : back.fallback.isSome = true) {first second : Node}
    (hfirst : node.field? rule.name = some (.optional (some first)))
    (hsecond : node.field? half.name = some (.optional (some second))) :
    ∃ token, result.field? rule.name = some (.optional (some token)) := by
  -- The field that is edited is this one, its sibling or another.
  by_cases hown : name = rule.name
  · subst hown
    obtain ⟨other, content, new, hr, hcontent, hp, hrestored, hkept⟩ := h.own
    obtain rfl := Option.some.inj (hr.symm.trans (Kind.rule?_name hh.rule_mem))
    obtain rfl := Option.some.inj (hcontent.symm.trans hfirst)
    by_cases hrestores : ∃ present, node.Restores other new present
    · obtain ⟨present, hpresent⟩ := hrestores
      obtain ⟨stand, _, hstand⟩ := hrestored present hpresent
      exact ⟨stand, hstand⟩
    · have harity := hp.arity_eq
      cases new with
      | one | list => cases harity
      | optional new =>
        cases new with
        | some token => exact ⟨token, hkept (not_exists.mp hrestores)⟩
        | none => exact absurd ⟨second, rfl, pair, hh.pair_eq, hf, hh.sibling ▸ hsecond⟩ hrestores
  · by_cases hother : name = half.name
    · subst hother
      have hsibling := h.sibling half (Kind.rule?_name hh.half_mem) back hh.back_eq
      rw [hh.opposite] at hsibling
      rcases hsibling with hsame | ⟨hnone, _⟩ | ⟨_, _, stand, _, _, _, _, hstand⟩
      · exact ⟨first, hsame.trans hfirst⟩
      · rw [hnone] at hb
        cases hb
      · exact ⟨stand, hstand⟩
    · refine ⟨first, (h.others rule.name (Ne.symm hown) fun other hr opposite hopp => ?_).trans
        hfirst⟩
      obtain ⟨hmem, rfl⟩ := rule?_eq_some hr
      exact (hh.sibling_ne hmem hopp hother).symm

namespace Delimited

theorem of_replace (hd : node.Delimited) (h : node.WellFormed) (hk : node.kind.isDelimited = true)
    (he : node.replace name edit next = .ok result after) : result.Delimited := by
  intro delimiter hn
  obtain ⟨rule, pair, half, back, hh, rfl⟩ := Kind.exists_delimiter hk hn
  obtain ⟨hs, hf⟩ := hh.of_delimiter hk hn
  obtain ⟨_, hb⟩ := hh.symm.of_delimiter hk hs
  obtain ⟨first, hfirst⟩ := hd rule.name hn
  obtain ⟨second, hsecond⟩ := hd half.name hs
  have hframed := (h.replace_eq_ok_iff.mp he).framed h
  exact hframed.exists_half hh hf hb hfirst hsecond

/-- Delimiters that are present stay so through any sequence of edits. -/
theorem of_edits (hd : start.Delimited) (h : start.Edits result) (hw : start.WellFormed)
    (hk : start.kind.isDelimited = true) : result.Delimited := by
  induction h with
  | refl => exact hd
  | step h _ he ih => exact ih.of_replace (h.wellFormed hw) (h.kind_eq ▸ hk) he

end Delimited

end Node

end ProgramTree
