import ProgramTree.Proofs.EditRuns
import ProgramTree.Proofs.Renumbering

namespace ProgramTree

namespace Kind

/-- What may stand in for a field is what the field permits. -/
theorem permits_of_fallback (kind : Kind) :
    ∀ rule ∈ kind.grammar, ∀ pair ∈ rule.shape.pair?, ∀ fallback ∈ pair.fallback,
      rule.shape.permits = fallback.symbols.map .symbol := by
  cases kind <;> decide

/-- Formats stand in for each other. -/
theorem matching_halves (kind : Kind) :
    ∀ rule ∈ kind.grammar, ∀ pair ∈ rule.shape.pair?, pair.fallback = some .matchingFormat →
      ∀ half ∈ kind.grammar, half.name = pair.sibling → ∀ back ∈ half.shape.pair?,
        back.fallback = some .matchingFormat := by
  cases kind <;> decide

variable {kind : Kind} {rule half : FieldRule} {pair back : Pair} {fallback : Fallback}
  {new stand : Node} {next : Nat}

/-- What was made beside a node lets a token of that node's class stand in for it. -/
theorem Halves.symbol?_eq (h : kind.Halves rule pair half back) (hf : pair.fallback = some fallback)
    (ha : rule.shape.Allows (.optional (some new))) (ht : half.StandsFor new next stand) :
    new.symbol? = some (fallback.symbolFor stand) := by
  obtain ⟨permit, hpermit, hadmits⟩ := ha.admitted new (by simp [Field.nodes])
  rw [kind.permits_of_fallback rule h.rule_mem pair h.pair_eq fallback hf] at hpermit
  obtain ⟨symbol, hs, rfl⟩ := List.mem_map.mp hpermit
  have hsymbol : new.symbol? = some symbol := by
    simpa [Permit.admits, Node.isSymbol] using hadmits
  rw [hsymbol]
  cases fallback with
  | token own =>
    obtain rfl : symbol = own := by simpa [Fallback.symbols] using hs
    rfl
  | matchingFormat =>
    obtain @⟨_, text, _, hback, _⟩ := ht
    have hmatching := kind.matching_halves rule h.rule_mem pair h.pair_eq hf half h.half_mem
      h.sibling.symm _ hback
    cases hmatching
    have hstand : (Node.token next (Fallback.matchingFormat.symbolFor new) text).symbol? =
        some symbol := congrArg some (Fallback.symbolFor_matchingFormat hsymbol hs)
    rw [Fallback.symbolFor_matchingFormat hstand hs]

end Kind

/-- A token of canonical text is like the one that stands in for its class. -/
theorem FieldRule.StandsFor.alike {rule : FieldRule} {pair : Pair} {fallback : Fallback}
    {present stand new : Node} {symbol : Symbol} {next : Nat}
    (h : rule.StandsFor present next stand) (hp : rule.shape.pair? = some pair)
    (hb : pair.fallback = some fallback) (hs : new.symbol? = some symbol)
    (hc : new.symbol? = some (fallback.symbolFor present)) (ht : new.text? = symbol.canonical) :
    stand.AlikeSince 0 new := by
  obtain ⟨hpair, htext⟩ := h
  cases hp.symm.trans hpair
  cases hb
  cases new with
  | tree => cases hs
  | token id own text =>
    cases hs
    cases hc
    cases htext.symm.trans ht.symm
    exact .token _ _ (Nat.zero_le _) (Nat.zero_le _)

namespace Node

variable {node new inserted : Node} {name : String} {edit : Edit} {next after : Nat}
  {rule half : FieldRule} {pair back : Pair}

/-- What comes of taking out again what was put into a field. -/
structure Retracted (node : Node) (name : String) (new inserted : Node) : Prop where
  /-- A field that was absent is empty again, unless a token stands in for its node. -/
  optional : node.field? name = some (.optional none) → ∀ later, ∃ removed last,
    inserted.replace name (.child (some new) none) later = .ok removed last ∧
      ((∀ rule ∈ node.kind.rule? name, ∀ pair ∈ rule.shape.pair?, pair.fallback = none) →
        removed.Alike node) ∧
      (node.kind.isDelimited = true → name ∈ Kind.delimiters →
        removed.Delimited ∧ (∀ result, removed.Edits result → result.Delimited) ∧
          ((∃ symbol, new.symbol? = some symbol ∧ new.text? = symbol.canonical) →
            removed.Alike inserted))
  element : ∀ elements, node.field? name = some (.list elements) →
    (∀ element ∈ elements, element.same new = false) → ∀ later, ∃ removed last,
      inserted.replace name (.child (some new) none) later = .ok removed last ∧
        removed.Alike node

theorem alike_tree (hk : node.kind ≠ .token) (id : Nat) :
    (Node.tree id node.kind node.fields).Alike node := by
  cases node with
  | token => exact absurd rfl hk
  | tree => exact .of_erase_eq rfl

/-- The node with both halves of a pair filled, under a number of its own. -/
def fillHalves (node : Node) (rule half : FieldRule) (new stand : Node) (id : Nat) : Node :=
  .tree id node.kind (Fields.assign half.name (.optional (some stand))
    (Fields.assign rule.name (.optional (some new)) node.fields))

namespace WellFormed

variable {id later : Nat} {content filled : Field Node}

/-- Putting back what a field held gives the fields that there were. -/
theorem replace_back (h : node.WellFormed) (hr : node.kind.rule? name = some rule)
    (hf : node.field? name = some content)
    (hw : (Node.tree id node.kind (Fields.assign name filled node.fields)).WellFormed)
    (hp : edit.Puts filled content)
    (hk : rule.shape.pair?.isSome = true → content.isPresent = filled.isPresent) :
    (Node.tree id node.kind (Fields.assign name filled node.fields)).replace name edit later =
      .ok (.tree later node.kind node.fields) (later + 1) := by
  obtain ⟨hrule, rfl⟩ := rule?_eq_some hr
  obtain ⟨held, hheld, ha⟩ := h.fits.allowed rule hrule
  cases Option.some.inj (hheld.symm.trans hf)
  calc
    _ = .ok (.tree later node.kind (Fields.assign rule.name content
          (Fields.assign rule.name filled node.fields))) (later + 1) :=
        hw.replace_edited (.plain hr (Fields.lookup_assign_self hf) hp ha hk)
    _ = _ := by rw [Fields.assign_assign, Fields.assign_eq_self_of_lookup h.names_nodup hf]

section Halves

variable {stand : Node} (h : node.WellFormed) (hh : node.kind.Halves rule pair half back)

include h hh

theorem field?_fillHalves (new stand : Node) (id : Nat) :
    (node.fillHalves rule half new stand id).field? rule.name = some (.optional (some new)) ∧
      (node.fillHalves rule half new stand id).field? half.name =
        some (.optional (some stand)) :=
  ⟨hh.lookup_first h.fits.names .., hh.lookup_second h.fits.names ..⟩

theorem delimited_fillHalves (hk : node.kind.isDelimited = true)
    (hn : rule.name ∈ Kind.delimiters) (new stand : Node) (id : Nat) :
    (node.fillHalves rule half new stand id).Delimited := by
  obtain ⟨hfirst, hsecond⟩ := h.field?_fillHalves hh new stand id
  intro delimiter hd
  rcases hh.eq_or_eq_of_delimiter hk hn hd with rfl | rfl
  · exact ⟨new, hfirst⟩
  · exact ⟨stand, hsecond⟩

variable (hw : (node.fillHalves rule half new stand id).WellFormed)

include hw

/-- A half that nothing can stand in for takes with it what was made beside it. -/
theorem replace_back_released (hf : node.field? rule.name = some (.optional none))
    (hb : pair.fallback = none) :
    (node.fillHalves rule half new stand id).replace rule.name (.child (some new) none) later =
      .ok (.tree later node.kind node.fields) (later + 1) := by
  have hfirst := (h.field?_fillHalves hh new stand id).1
  have habsent : node.fields.lookup half.name = some (.optional none) := h.absent_half hh hf rfl
  calc
    _ = .ok (.tree later node.kind (Fields.assign half.name (.optional none)
          (Fields.assign rule.name (.optional none)
            (node.fillHalves rule half new stand id).fields))) (later + 1) :=
        hw.replace_released hh hb hfirst (Edit.Puts.present none (same_self new)).edit_eq later
    _ = _ := by
      rw [fillHalves, Node.fields, Fields.assign_comm hh.ne.symm, Fields.assign_assign,
        Fields.assign_assign, Fields.assign_eq_self_of_lookup h.names_nodup hf,
        Fields.assign_eq_self_of_lookup h.names_nodup habsent]

/-- A half that a token can stand in for is followed by one of the class that it had. -/
theorem replace_back_restored (later : Nat) {fallback : Fallback}
    (hb : pair.fallback = some fallback) (ha : rule.shape.Allows (.optional (some new)))
    {next : Nat} (ht : half.StandsFor new next stand) : ∃ removed last,
    (node.fillHalves rule half new stand id).replace rule.name (.child (some new) none) later =
      .ok removed last ∧
    ((∃ symbol, new.symbol? = some symbol ∧ new.text? = symbol.canonical) →
      removed.Alike (node.fillHalves rule half new stand id)) := by
  obtain ⟨hfirst, hsecond⟩ := h.field?_fillHalves hh new stand id
  obtain ⟨other, hother⟩ := FieldRule.exists_standsFor hh.rule_mem hh.pair_eq hb stand later
  have hrestored := hw.replace_restored hh hb hfirst
    (Edit.Puts.present none (same_self new)).edit_eq hsecond hother
  refine ⟨_, _, hrestored, fun ⟨symbol, hsymbol, htext⟩ => ?_⟩
  have halike := hother.alike hh.pair_eq hb hsymbol (hh.symbol?_eq hb ha ht) htext
  rw [fillHalves, Node.fields, Fields.assign_comm hh.ne, Fields.assign_assign]
  exact (halike.assign _ _ _ (Nat.zero_le _) (Nat.zero_le _)).toAlike

theorem retracted_pair (hn : new.WellFormed)
    (hf : node.field? rule.name = some (.optional none))
    (ha : rule.shape.Allows (.optional (some new))) {next : Nat}
    (ht : half.StandsFor new next stand) :
    node.Retracted rule.name new (node.fillHalves rule half new stand id) where
  optional _ later := by
    have hr := Kind.rule?_name hh.rule_mem
    cases hb : pair.fallback with
    | none =>
      refine ⟨_, _, h.replace_back_released hh hw hf hb,
        fun _ => alike_tree (kind_ne_token_of_rule? hr) later, fun hk hname => ?_⟩
      have hsome := (hh.of_delimiter hk hname).2
      rw [hb] at hsome
      cases hsome
    | some fallback =>
      obtain ⟨removed, last, hremoved, halike⟩ := h.replace_back_restored hh hw later hb ha ht
      refine ⟨removed, last, hremoved, fun hnone => ?_, fun hk hname => ?_⟩
      · cases hb.symm.trans (hnone rule hr pair hh.pair_eq)
      · have hdelimited : removed.Delimited :=
          (h.delimited_fillHalves hh hk hname new stand id).of_replace hw hk hremoved
        have hwell := hw.of_replace (by simpa [Edit.handles] using hn) hremoved
        have hkind := (kind_of_replace hremoved).1
        exact ⟨hdelimited, fun _ he => hdelimited.of_edits he hwell (hkind ▸ hk), halike⟩
  element _ he := by
    cases hf.symm.trans he

end Halves

theorem retracted_optional (h : node.WellFormed) (hr : node.kind.rule? name = some rule)
    (hpair : rule.shape.pair? = none) (hf : node.field? name = some (.optional none))
    (hw : (Node.tree id node.kind
      (Fields.assign name (.optional (some new)) node.fields)).WellFormed) :
    node.Retracted name new
      (.tree id node.kind (Fields.assign name (.optional (some new)) node.fields)) where
  optional _ later := by
    refine ⟨_, _, h.replace_back hr hf hw (.present none (same_self new)) (by simp [hpair]),
      fun _ => alike_tree (kind_ne_token_of_rule? hr) later, fun hk hn => ?_⟩
    obtain ⟨other, pair, half, back, hh, rfl⟩ := Kind.exists_delimiter hk hn
    obtain rfl := Option.some.inj ((Kind.rule?_name hh.rule_mem).symm.trans hr)
    cases hpair.symm.trans hh.pair_eq
  element _ he := by
    cases hf.symm.trans he

theorem retracted_element (h : node.WellFormed) (hr : node.kind.rule? name = some rule)
    {elements : List Node} (hf : node.field? name = some (.list elements))
    (hw : (Node.tree id node.kind
      (Fields.assign name (.list (elements ++ [new])) node.fields)).WellFormed) :
    node.Retracted name new
      (.tree id node.kind (Fields.assign name (.list (elements ++ [new])) node.fields)) where
  optional he := by
    cases hf.symm.trans he
  element others ho hfree later := by
    cases hf.symm.trans ho
    have hlast : Edit.Puts (.child (some new) none) (.list (elements ++ new :: []))
        (.list (elements ++ (none : Option Node).toList ++ [])) :=
      .element none (fun element he => (same_comm new element).trans (hfree element he))
        (same_self new)
    simp only [Option.toList_none, List.append_nil] at hlast
    refine ⟨_, _, h.replace_back hr hf hw hlast fun hs => ?_,
      alike_tree (kind_ne_token_of_rule? hr) later⟩
    obtain ⟨hrule, rfl⟩ := rule?_eq_some hr
    have harity := Kind.arity_of_lookup h.fits.layout hrule hf
    cases harity.trans (Shape.arity_of_pair? hs)

end WellFormed

/-- A node that was put into an absent field, or at the end of a list, can be taken out again. This
undoes the insertion, except that delimiters stay once they are there. -/
theorem replace_retracted (h : node.WellFormed) (hn : new.WellFormed)
    (hi : node.replace name (.child none (some new)) next = .ok inserted after) :
    node.Retracted name new inserted := by
  have hw : inserted.WellFormed := h.of_replace (by simpa [Edit.handles] using hn) hi
  cases h.replace_eq_ok_iff.mp hi with
  | plain hr hf hp ha hk =>
    cases hp with
    | absent =>
      refine h.retracted_optional hr (Option.not_isSome_iff_eq_none.mp fun hs => ?_) hf hw
      cases hk hs
    | append elements => exact h.retracted_element hr hf hw
  | released hr hs hf hp => cases hp
  | restored hr hs hf hp => cases hp
  | completed hr hs hhalf hf hp ha ht =>
    obtain ⟨hrule, rfl⟩ := rule?_eq_some hr
    obtain ⟨other, back, hh⟩ := Kind.exists_halves hrule hs
    obtain ⟨hmem, hname⟩ := rule?_eq_some hhalf
    obtain rfl := Kind.eq_of_name_eq hh.half_mem hmem (hname.trans hh.sibling)
    cases hp
    rw [hh.sibling] at hw ⊢
    exact h.retracted_pair hh hw hn hf ha ht

/-- An opening brace is put into a block without braces and taken out again: both braces stay. -/
theorem replace_retracted_bracing :
    Session.bareBlock.WellFormed ∧ Session.openBrace.WellFormed ∧
      Session.bareBlock.replace "open" (.child none (some Session.openBrace)) 2 =
        .ok Session.bracedBlock 4 ∧
      ∃ removed last,
        Session.bracedBlock.replace "open" (.child (some Session.openBrace) none) 4 =
          .ok removed last ∧
        removed.Delimited ∧ removed.Alike Session.bracedBlock := by
  have h : Session.bareBlock.WellFormed := by decide +kernel
  have hn : Session.openBrace.WellFormed := .token ..
  have hi : Session.bareBlock.replace "open" (.child none (some Session.openBrace)) 2 =
      .ok Session.bracedBlock 4 := rfl
  obtain ⟨removed, last, hremoved, _, hkept⟩ := (replace_retracted h hn hi).optional rfl 4
  obtain ⟨hdelimited, _, halike⟩ := hkept rfl (by decide)
  exact ⟨h, hn, hi, removed, last, hremoved, hdelimited, halike ⟨.blockOpen, rfl, rfl⟩⟩

end Node

end ProgramTree
