import ProgramTree.Proofs.Occurrences
import ProgramTree.Proofs.PairedEdits
import ProgramTree.Proofs.Sessions

namespace ProgramTree

/-- Why a node refuses an edit of one field. -/
inductive Node.Refuses (node : Node) (name : String) (edit : Edit) : EditError → Prop
  | unknownField (hr : node.kind.rule? name = none) :
      Refuses node name edit (.unknownField node.kind name)
  | misses {content : Field Node} {error : EditError} (hf : node.field? name = some content)
      (hm : edit.Misses node.kind name content error) : Refuses node name edit error
  | notAllowed {rule : FieldRule} {content new : Field Node} {error : ShapeError}
      (hr : node.kind.rule? name = some rule) (hf : node.field? name = some content)
      (hp : edit.Puts content new) (hn : rule.Refuses node.kind new error) :
      Refuses node name edit (.shape error)
  /-- A dot without a member, or a colon without a default. -/
  | unpaired {rule : FieldRule} {content : Field Node} {new : Node} {sibling : String}
      (hb : node.kind = .borrow ∧ name = "dot" ∧ sibling = "name" ∨
        node.kind = .bind ∧ name = "colon" ∧ sibling = "value")
      (hr : node.kind.rule? name = some rule) (hf : node.field? name = some content)
      (hp : edit.Puts content (.optional (some new)))
      (ha : rule.shape.Allows (.optional (some new)))
      (hs : node.field? sibling = some (.optional none)) :
      Refuses node name edit (.shape (.unpaired node.kind sibling name))

/-- A half of a pair is removed from beside a node, and a token can stand in for it. -/
def Node.Restores (node : Node) (rule : FieldRule) (new : Field Node) (present : Node) : Prop :=
  new = .optional none ∧ ∃ pair ∈ rule.shape.pair?, pair.fallback.isSome = true ∧
    node.field? pair.sibling = some (.optional (some present))

/-- What a node becomes when one field is edited, and the next unused number then. -/
inductive Node.Edited (node : Node) (name : String) (edit : Edit) (next : Nat) : Node → Nat → Prop
  | plain {rule : FieldRule} {content new : Field Node} (hr : node.kind.rule? name = some rule)
      (hf : node.field? name = some content) (hp : edit.Puts content new)
      (ha : rule.shape.Allows new)
      (hk : rule.shape.pair?.isSome = true → new.isPresent = content.isPresent) :
      Edited node name edit next
        (.tree next node.kind (Fields.assign name new node.fields)) (next + 1)
  /-- A half that nothing can stand in for is removed, and its sibling too. -/
  | released {rule : FieldRule} {sibling : String} {child : Node}
      (hr : node.kind.rule? name = some rule) (hs : rule.shape.pair? = some ⟨sibling, none⟩)
      (hf : node.field? name = some (.optional (some child)))
      (hp : edit.Puts (.optional (some child)) (.optional none)) :
      Edited node name edit next
        (.tree next node.kind (Fields.assign sibling (.optional none)
          (Fields.assign name (.optional none) node.fields))) (next + 1)
  /-- A token stands in for a half that is removed; the sibling stays. -/
  | restored {rule : FieldRule} {pair : Pair} {child present stand : Node}
      (hr : node.kind.rule? name = some rule) (hs : rule.shape.pair? = some pair)
      (hf : node.field? name = some (.optional (some child)))
      (hp : edit.Puts (.optional (some child)) (.optional none))
      (hh : node.field? pair.sibling = some (.optional (some present)))
      (ht : rule.StandsFor present next stand) :
      Edited node name edit next
        (.tree (next + 1) node.kind (Fields.assign name (.optional (some stand)) node.fields))
        (next + 2)
  /-- A token stands in for the sibling of a half that is put. -/
  | completed {rule half : FieldRule} {pair : Pair} {new stand : Node}
      (hr : node.kind.rule? name = some rule) (hs : rule.shape.pair? = some pair)
      (hh : node.kind.rule? pair.sibling = some half)
      (hf : node.field? name = some (.optional none))
      (hp : edit.Puts (.optional none) (.optional (some new)))
      (ha : rule.shape.Allows (.optional (some new))) (ht : half.StandsFor new next stand) :
      Edited node name edit next
        (.tree (next + 1) node.kind (Fields.assign pair.sibling (.optional (some stand))
          (Fields.assign name (.optional (some new)) node.fields))) (next + 2)

/-- What an edit of one field leaves in the fields of a node. -/
structure Node.Framed (node : Node) (name : String) (edit : Edit) (next : Nat) (result : Node) :
    Prop where
  kind : result.kind = node.kind
  names : result.fields.map (·.1) = node.fields.map (·.1)
  /-- The field holds what was put, or a token that stands in for what was removed. -/
  own : ∃ rule content new, node.kind.rule? name = some rule ∧ node.field? name = some content ∧
    edit.Puts content new ∧
      (∀ present, node.Restores rule new present → ∃ stand, rule.StandsFor present next stand ∧
        result.field? name = some (.optional (some stand))) ∧
      ((∀ present, ¬ node.Restores rule new present) → result.field? name = some new)
  /-- Its sibling stays, goes with a removed half, or is a token that stands in for it beside a half
  that was put. -/
  sibling : ∀ rule ∈ node.kind.rule? name, ∀ pair ∈ rule.shape.pair?,
    result.field? pair.sibling = node.field? pair.sibling ∨
      (pair.fallback = none ∧ result.field? name = some (.optional none) ∧
        result.field? pair.sibling = some (.optional none)) ∨
      ∃ half child stand, node.kind.rule? pair.sibling = some half ∧
        node.field? name = some (.optional none) ∧
          result.field? name = some (.optional (some child)) ∧ half.StandsFor child next stand ∧
            result.field? pair.sibling = some (.optional (some stand))
  others : ∀ other ≠ name,
    (∀ rule ∈ node.kind.rule? name, ∀ pair ∈ rule.shape.pair?, other ≠ pair.sibling) →
      result.field? other = node.field? other

/-- Everything that an edit of one field of a node can come to. -/
structure Node.EditOutcome (node : Node) (name : String) (edit : Edit) (next : Nat) : Prop where
  refused : ∀ error, (∃ after, node.replace name edit next = .error error after) ↔
    node.Refuses name edit error
  edited : ∀ result after, node.replace name edit next = .ok result after ↔
    node.Edited name edit next result after
  framed : ∀ result after, node.replace name edit next = .ok result after →
    node.Framed name edit next result
  /-- The fields have the places of their kind, so that no fault of these is reported. -/
  layout : ∀ error after, node.replace name edit next = .error (.shape error) after →
    (∀ kind field arity, error ≠ .fieldArity kind field arity) ∧
      ∀ kind expected found, error ≠ .fieldCount kind expected found

namespace Node

variable {node result : Node} {name : String} {edit : Edit} {next after : Nat}
  {rule half : FieldRule} {content new : Field Node} {pair back : Pair}

theorem rule?_eq_some {kind : Kind} (h : kind.rule? name = some rule) :
    rule ∈ kind.grammar ∧ rule.name = name :=
  ⟨List.mem_of_find?_eq_some h, by simpa using List.find?_some h⟩

namespace WellFormed

theorem field?_eq_none (h : node.WellFormed) (hr : node.kind.rule? name = none) :
    node.field? name = none := by
  refine List.lookup_eq_none_iff.mpr ?_
  rintro ⟨other, held⟩ hm
  obtain ⟨rule, hrule, rfl, _⟩ := h.exists_rule_of_mem hm
  have hne : rule.name ≠ name := by simpa using List.find?_eq_none.mp hr rule hrule
  simpa using hne.symm

/-- An edit of one field gives what is said of it. -/
theorem replace_edited (h : node.WellFormed) (he : node.Edited name edit next result after) :
    node.replace name edit next = .ok result after := by
  cases he with
  | plain hr hf hp ha hk =>
    obtain ⟨hrule, rfl⟩ := rule?_eq_some hr
    rw [h.replace_kept hrule hf hp.edit_eq hk, Kind.assemble_ok (h.fits.assign hrule hf hk ha)]
  | released hr hs hf hp =>
    obtain ⟨hrule, rfl⟩ := rule?_eq_some hr
    obtain ⟨half, back, hh⟩ := Kind.exists_halves hrule hs
    obtain rfl : _ = half.name := hh.sibling
    exact h.replace_released hh rfl hf hp.edit_eq next
  | @restored rule pair child present stand hr hs hf hp hpresent ht =>
    obtain ⟨hrule, rfl⟩ := rule?_eq_some hr
    obtain ⟨half, back, hh⟩ := Kind.exists_halves hrule hs
    obtain ⟨fallback, hb⟩ := ht.exists_fallback hs
    rw [hh.sibling] at hpresent
    exact h.replace_restored hh hb hf hp.edit_eq hpresent ht
  | @completed rule half pair new stand hr hs hhalf hf hp ha ht =>
    obtain ⟨hrule, rfl⟩ := rule?_eq_some hr
    obtain ⟨other, back, hh⟩ := Kind.exists_halves hrule hs
    obtain ⟨hhalf, hname⟩ := rule?_eq_some hhalf
    obtain rfl := Kind.eq_of_name_eq hh.half_mem hhalf (hname.trans hh.sibling)
    obtain ⟨fallback, hb⟩ := ht.exists_fallback hh.back_eq
    have hsome : (some new).isSome = (some stand).isSome := rfl
    have hfits := hh.fits_assign h.fits hsome ha (ht.allows hh.half_mem)
    rw [h.replace_filled hh hf hp.edit_eq rfl hb ht, hh.sibling]
    exact Kind.assemble_ok hfits (next + 1)

/-- A half of a pair that does not stay as present as it was is filled or emptied. -/
theorem filled_or_emptied (hh : node.kind.Halves rule pair half back)
    (hc : content.arity = rule.shape.arity) (hn : new.arity = rule.shape.arity)
    (hk : new.isPresent ≠ content.isPresent) :
    (content = .optional none ∧ ∃ child, new = .optional (some child)) ∨
      (∃ child, content = .optional (some child)) ∧ new = .optional none := by
  rw [hh.arity] at hc hn
  cases hp : content.isPresent with
  | false =>
    have hnew : new.isPresent = true := by simpa [hp] using hk
    exact .inl ⟨Field.eq_none_of_absent hc hp, Field.exists_some_of_present hn hnew⟩
  | true =>
    have hnew : new.isPresent = false := by simpa [hp] using hk
    exact .inr ⟨Field.exists_some_of_present hc hp, Field.eq_none_of_absent hn hnew⟩

/-- A half that is not allowed is reported when the other half is missing, and also when it was
completed. -/
theorem replace_filled_refused (h : node.WellFormed) (hh : node.kind.Halves rule pair half back)
    {child : Node} (hf : node.field? rule.name = some (.optional none))
    (hp : edit.Puts (.optional none) (.optional (some child))) {error : ShapeError}
    (hn : rule.Refuses node.kind (.optional (some child)) error) (next : Nat) :
    ∃ after, node.replace rule.name edit next = .error (.shape error) after := by
  have harity : (Field.optional (some child)).arity = rule.shape.arity := hh.arity.symm
  cases hb : back.fallback with
  | none =>
    have hlayout := hh.layout_assign h.fits.layout (some child)
    have hcheck := hh.check_refused hb h.fits harity hn
    rw [h.replace_lone hh hf hp.edit_eq hb]
    exact ⟨_, Kind.assemble_error hlayout hcheck next⟩
  | some fallback =>
    obtain ⟨stand, ht⟩ := FieldRule.exists_standsFor hh.half_mem hh.back_eq hb child next
    have hsome : (some child).isSome = (some stand).isSome := rfl
    have hmatched := hh.matched_assign h.fits.matched hsome
    have hallowed := ht.allows hh.half_mem
    have hcheck := hmatched.check_eq_error hh.rule_mem
      (fun _ ho hne => hh.allowed_assign h.fits _ hallowed ho hne)
      (hh.lookup_first h.fits.names _ _) (hn.check_eq harity _)
    rw [h.replace_filled hh hf hp.edit_eq rfl hb ht]
    exact ⟨_, Kind.assemble_error hmatched.layout hcheck (next + 1)⟩

/-- A content that its rule does not allow is refused. -/
theorem replace_notAllowed (h : node.WellFormed) (hr : rule ∈ node.kind.grammar)
    (hf : node.field? rule.name = some content) (hp : edit.Puts content new) {error : ShapeError}
    (hn : rule.Refuses node.kind new error) (next : Nat) :
    ∃ after, node.replace rule.name edit next = .error (.shape error) after := by
  have hold := Kind.arity_of_lookup h.fits.layout hr hf
  have harity := hp.arity_eq.trans hold
  by_cases hk : rule.shape.pair?.isSome = true → new.isPresent = content.isPresent
  · have hlayout := Kind.layout_assign h.fits.layout hr harity
    have hcheck := h.fits.check_assign hr hf harity hk (hn.check_eq harity _)
    rw [h.replace_kept hr hf hp.edit_eq hk]
    exact ⟨next, Kind.assemble_error hlayout hcheck next⟩
  · obtain ⟨hs, hk⟩ := Classical.not_imp.mp hk
    obtain ⟨pair, hpair⟩ := Option.isSome_iff_exists.mp hs
    obtain ⟨half, back, hh⟩ := Kind.exists_halves hr hpair
    obtain ⟨rfl, child, rfl⟩ | ⟨_, rfl⟩ := filled_or_emptied hh hold harity hk
    · exact h.replace_filled_refused hh hf hp hn next
    · exact absurd hh.allows_none hn.not_allows

/-- An edit of one field that is refused gives the reason. -/
theorem replace_refuses (h : node.WellFormed) {error : EditError}
    (he : node.Refuses name edit error) (next : Nat) :
    ∃ after, node.replace name edit next = .error error after := by
  cases he with
  | unknownField hr => exact ⟨next, replace_unknown (h.field?_eq_none hr) edit next⟩
  | misses hf hm => exact ⟨next, replace_eq_error hf hm.edit_eq next⟩
  | notAllowed hr hf hp hn =>
    obtain ⟨hrule, rfl⟩ := rule?_eq_some hr
    exact h.replace_notAllowed hrule hf hp hn next
  | @unpaired rule content new sibling hb hr hf hp ha hs =>
    obtain ⟨hrule, rfl⟩ := rule?_eq_some hr
    obtain ⟨half, pair, back, hh, rfl, hnone⟩ := Kind.exists_bound_half hrule hb
    have hlayout := hh.layout_assign h.fits.layout (some new)
    have hcheck := hh.check_lone hnone h.fits hs ha
    rw [h.replace_lone hh hf hp.edit_eq hnone]
    exact ⟨next, Kind.assemble_error hlayout hcheck next⟩

/-- Filling a half completes the other one or leaves it missing. -/
theorem edited_or_refuses_filled (h : node.WellFormed)
    (hh : node.kind.Halves rule pair half back) {child : Node}
    (hf : node.field? rule.name = some (.optional none))
    (hp : edit.Puts (.optional none) (.optional (some child)))
    (ha : rule.shape.Allows (.optional (some child))) (next : Nat) :
    (∃ result after, node.Edited rule.name edit next result after) ∨
      ∃ error, node.Refuses rule.name edit error := by
  have hr := Kind.rule?_name hh.rule_mem
  cases hb : back.fallback with
  | none =>
    have hbound := node.kind.bound_rules half hh.half_mem back hh.back_eq hb
    rw [hh.opposite] at hbound
    have hlone : node.kind = .borrow ∧ rule.name = "dot" ∧ half.name = "name" ∨
        node.kind = .bind ∧ rule.name = "colon" ∧ half.name = "value" := by tauto
    exact .inr ⟨_, .unpaired hlone hr hf hp ha (h.absent_half hh hf rfl)⟩
  | some fallback =>
    obtain ⟨stand, ht⟩ := FieldRule.exists_standsFor hh.half_mem hh.back_eq hb child next
    have hhalf : node.kind.rule? pair.sibling = some half :=
      hh.sibling ▸ Kind.rule?_name hh.half_mem
    exact .inl ⟨_, _, .completed hr hh.pair_eq hhalf hf hp ha ht⟩

/-- Emptying a half releases the other one or is undone by a token that stands in. -/
theorem edited_emptied (h : node.WellFormed) (hh : node.kind.Halves rule pair half back)
    {child : Node} (hf : node.field? rule.name = some (.optional (some child)))
    (hp : edit.Puts (.optional (some child)) (.optional none)) (next : Nat) :
    ∃ result after, node.Edited rule.name edit next result after := by
  have hr := Kind.rule?_name hh.rule_mem
  obtain ⟨sibling, fallback⟩ := pair
  cases fallback with
  | none => exact ⟨_, _, .released hr hh.pair_eq hf hp⟩
  | some fallback =>
    obtain ⟨other, hother, hpresent, _⟩ := h.exists_half hh hf
    obtain ⟨present, rfl⟩ := Option.isSome_iff_exists.mp hpresent
    obtain ⟨stand, ht⟩ := FieldRule.exists_standsFor hh.rule_mem hh.pair_eq rfl present next
    rw [← hh.sibling] at hother
    exact ⟨_, _, .restored hr hh.pair_eq hf hp hother ht⟩

/-- An edit of one field is refused or gives a node. -/
theorem edited_or_refuses (h : node.WellFormed) (name : String) (edit : Edit) (next : Nat) :
    (∃ result after, node.Edited name edit next result after) ∨
      ∃ error, node.Refuses name edit error := by
  cases hr : node.kind.rule? name with
  | none => exact .inr ⟨_, .unknownField hr⟩
  | some rule =>
    obtain ⟨hrule, rfl⟩ := rule?_eq_some hr
    obtain ⟨content, hf, _⟩ := h.fits.allowed rule hrule
    have hold := Kind.arity_of_lookup h.fits.layout hrule hf
    rcases edit.puts_or_misses node.kind rule.name content with ⟨new, hp⟩ | ⟨error, hm⟩
    · have harity := hp.arity_eq.trans hold
      rcases FieldRule.allows_or_refuses node.kind harity with ha | ⟨error, hn⟩
      · by_cases hk : rule.shape.pair?.isSome = true → new.isPresent = content.isPresent
        · exact .inl ⟨_, _, .plain hr hf hp ha hk⟩
        · obtain ⟨hs, hk⟩ := Classical.not_imp.mp hk
          obtain ⟨pair, hpair⟩ := Option.isSome_iff_exists.mp hs
          obtain ⟨half, back, hh⟩ := Kind.exists_halves hrule hpair
          obtain ⟨rfl, child, rfl⟩ | ⟨⟨child, rfl⟩, rfl⟩ := filled_or_emptied hh hold harity hk
          · exact h.edited_or_refuses_filled hh hf hp ha next
          · exact .inl (h.edited_emptied hh hf hp next)
      · exact .inr ⟨_, .notAllowed hr hf hp hn⟩
    · exact .inr ⟨_, .misses hf hm⟩

theorem replace_eq_ok_iff (h : node.WellFormed) :
    node.replace name edit next = .ok result after ↔ node.Edited name edit next result after := by
  refine ⟨fun hok => ?_, h.replace_edited⟩
  rcases h.edited_or_refuses name edit next with ⟨other, middle, he⟩ | ⟨error, he⟩
  · cases (h.replace_edited he).symm.trans hok
    exact he
  · obtain ⟨middle, herror⟩ := h.replace_refuses he next
    cases herror.symm.trans hok

theorem replace_eq_error_iff (h : node.WellFormed) {error : EditError} :
    (∃ after, node.replace name edit next = .error error after) ↔ node.Refuses name edit error := by
  refine ⟨?_, fun he => h.replace_refuses he next⟩
  rintro ⟨after, herror⟩
  rcases h.edited_or_refuses name edit next with ⟨result, middle, he⟩ | ⟨other, he⟩
  · cases (h.replace_edited he).symm.trans herror
  · obtain ⟨middle, hother⟩ := h.replace_refuses he next
    cases hother.symm.trans herror
    exact he

/-- Nothing is restored when a half stays as present as it was. -/
theorem not_restores_of_kept (h : node.WellFormed) (hr : rule ∈ node.kind.grammar)
    (hf : node.field? rule.name = some content)
    (hk : rule.shape.pair?.isSome = true → new.isPresent = content.isPresent) (present : Node) :
    ¬ node.Restores rule new present := by
  rintro ⟨rfl, pair, hs, _, hpresent⟩
  obtain ⟨half, back, hh⟩ := Kind.exists_halves hr hs
  have habsent := h.absent_half hh hf (hk (Option.isSome_of_mem hs)).symm
  rw [hh.sibling] at hpresent
  cases habsent.symm.trans hpresent

end WellFormed

namespace Edited

theorem framed (h : node.WellFormed) (he : node.Edited name edit next result after) :
    node.Framed name edit next result where
  kind := by
    cases he <;> rfl
  names := by
    cases he <;> simp [fields]
  own := by
    cases he with
    | plain hr hf hp ha hk =>
      obtain ⟨hrule, rfl⟩ := rule?_eq_some hr
      refine ⟨_, _, _, hr, hf, hp, fun present hn => ?_, fun _ => Fields.lookup_assign_self hf⟩
      exact absurd hn (h.not_restores_of_kept hrule hf hk present)
    | released hr hs hf hp =>
      obtain ⟨hrule, rfl⟩ := rule?_eq_some hr
      obtain ⟨half, back, hh⟩ := Kind.exists_halves hrule hs
      obtain rfl : _ = half.name := hh.sibling
      refine ⟨_, _, _, hr, hf, hp, ?_, fun _ => hh.lookup_first h.fits.names _ _⟩
      rintro present ⟨_, pair, hpair, hsome, _⟩
      cases hs.symm.trans hpair
      cases hsome
    | @restored rule pair child present stand hr hs hf hp hh ht =>
      obtain ⟨fallback, hb⟩ := ht.exists_fallback hs
      have hrestores : node.Restores rule (.optional none) present :=
        ⟨rfl, pair, hs, by simp [hb], hh⟩
      refine ⟨_, _, _, hr, hf, hp, ?_, fun hn => absurd hrestores (hn present)⟩
      rintro other ⟨_, _, hpair, _, hother⟩
      cases hs.symm.trans hpair
      cases hh.symm.trans hother
      exact ⟨stand, ht, Fields.lookup_assign_self hf⟩
    | @completed rule half pair new stand hr hs hhalf hf hp ha ht =>
      obtain ⟨hrule, rfl⟩ := rule?_eq_some hr
      obtain ⟨other, back, hh⟩ := Kind.exists_halves hrule hs
      have hown := hh.sibling ▸ hh.lookup_first h.fits.names (.optional (some new))
        (.optional (some stand))
      refine ⟨_, _, _, hr, hf, hp, ?_, fun _ => hown⟩
      rintro present ⟨hnone, _⟩
      cases hnone
  sibling := by
    intro rule hr pair hs
    obtain ⟨hrule, rfl⟩ := rule?_eq_some hr
    obtain ⟨half, back, hh⟩ := Kind.exists_halves hrule hs
    have hname := hh.sibling
    cases he with
    | plain => exact .inl (Fields.lookup_assign_of_ne (hname ▸ hh.ne))
    | released hown hpair =>
      obtain rfl := Option.some.inj (hr.symm.trans hown)
      obtain rfl := Option.some.inj (hs.symm.trans hpair)
      obtain rfl : _ = half.name := hname
      exact .inr (.inl ⟨rfl, hh.lookup_first h.fits.names _ _, hh.lookup_second h.fits.names _ _⟩)
    | restored => exact .inl (Fields.lookup_assign_of_ne (hname ▸ hh.ne))
    | completed hown hpair hhalf hf hp ha ht =>
      obtain rfl := Option.some.inj (hr.symm.trans hown)
      obtain rfl := Option.some.inj (hs.symm.trans hpair)
      rw [hname] at hhalf ⊢
      exact .inr (.inr ⟨_, _, _, hhalf, hf, hh.lookup_first h.fits.names _ _, ht,
        hh.lookup_second h.fits.names _ _⟩)
  others := by
    intro other hn hs
    cases he with
    | plain | restored => exact Fields.lookup_assign_of_ne hn
    | released hr hp | completed hr hp =>
      exact (Fields.lookup_assign_of_ne (hs _ hr _ hp)).trans (Fields.lookup_assign_of_ne hn)

end Edited

/-- Neither the number of the fields nor the arity of one is a reason to refuse an edit. -/
theorem Refuses.not_layout {error : ShapeError} (he : node.Refuses name edit (.shape error)) :
    (∀ kind field arity, error ≠ .fieldArity kind field arity) ∧
      ∀ kind expected found, error ≠ .fieldCount kind expected found := by
  cases he with
  | misses hf hm =>
    cases hm
    simp
  | notAllowed hr hf hp hn => cases hn <;> simp
  | unpaired => simp

end Node

theorem Node.replace_outcome {node : Node} (h : node.WellFormed) (name : String) (edit : Edit)
    (next : Nat) : node.EditOutcome name edit next where
  refused _ := h.replace_eq_error_iff
  edited _ _ := h.replace_eq_ok_iff
  framed _ _ hok := (h.replace_eq_ok_iff.mp hok).framed h
  layout _ after herror := (h.replace_eq_error_iff.mp ⟨after, herror⟩).not_layout

/-- An opening brace is taken out of a block, and another one stands in for it. -/
theorem Node.replace_outcome_bracing :
    Session.bracedBlock.WellFormed ∧
      Session.bracedBlock.EditOutcome "open" (.child (some Session.openBrace) none) 4 ∧
      Session.bracedBlock.replace "open" (.child (some Session.openBrace) none) 4 =
        .ok Session.rebracedBlock 6 := by
  have h : Session.bracedBlock.WellFormed := by decide +kernel
  have ho := replace_outcome h "open" (.child (some Session.openBrace) none) 4
  have hstand : (FieldRule.paired "open" [.symbol .blockOpen] "close"
      (.token .blockOpen)).StandsFor Session.closeBrace 4 Session.newBrace :=
    @FieldRule.StandsFor.intro _ _ _ "close" _ (.token .blockOpen) rfl rfl
  exact ⟨h, ho, (ho.edited _ _).mpr (.restored rfl rfl rfl (.present none rfl) rfl hstand)⟩

end ProgramTree
