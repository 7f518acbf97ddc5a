import Mathlib.Data.List.TakeWhile
import ProgramTree.Proofs.FieldEdits

namespace ProgramTree

theorem Field.isPresent_optional {α : Type} (node : Option α) :
    (Field.optional node).isPresent = node.isSome := by
  cases node <;> rfl

/-- A token of canonical text that stands in for the absent half of a pair, when the other half
holds a node. -/
inductive FieldRule.StandsFor (rule : FieldRule) (present : Node) (next : Nat) : Node → Prop
  | intro {sibling text : String} {fallback : Fallback}
      (hp : rule.shape.pair? = some ⟨sibling, some fallback⟩)
      (ht : (fallback.symbolFor present).canonical = some text) :
      StandsFor rule present next (.token next (fallback.symbolFor present) text)

namespace Kind

/-- The fields that nothing can stand in for are the member of a borrow and the default of a
parameter. -/
theorem bound_rules (kind : Kind) :
    ∀ rule ∈ kind.grammar, ∀ pair ∈ rule.shape.pair?, pair.fallback = none →
      kind = .borrow ∧ rule.name = "name" ∧ pair.sibling = "dot" ∨
        kind = .bind ∧ rule.name = "value" ∧ pair.sibling = "colon" := by
  cases kind <;> decide

/-- A field that nothing can stand in for comes last, right after its sibling, and they are the only
pair. -/
theorem bound_last (kind : Kind) :
    ∀ half ∈ kind.grammar, ∀ back ∈ half.shape.pair?, back.fallback = none →
      ∀ rule ∈ kind.grammar, rule.name = back.sibling →
        kind.grammar = kind.grammar.takeWhile (·.shape.pair?.isNone) ++ [rule, half] := by
  cases kind <;> decide

/-- A half of a pair may be absent, as far as it is concerned. -/
theorem allows_none {shape : Shape} (h : shape.pair?.isSome = true) :
    shape.Allows (.optional none) := by
  cases shape with
  | optional => exact ⟨rfl, by simp [Field.nodes], by simp [Shape.nonEmpty]⟩
  | one | list => cases h

/-- Two rules of a grammar are the halves of one pair. -/
structure Halves (kind : Kind) (rule : FieldRule) (pair : Pair) (half : FieldRule) (back : Pair) :
    Prop where
  rule_mem : rule ∈ kind.grammar
  half_mem : half ∈ kind.grammar
  ne : half.name ≠ rule.name
  pair_eq : rule.shape.pair? = some pair
  back_eq : half.shape.pair? = some back
  sibling : pair.sibling = half.name
  opposite : back.sibling = rule.name

variable {kind : Kind} {fields : Fields} {rule half other : FieldRule} {pair back : Pair}
  {error : ShapeError}

theorem exists_halves (hr : rule ∈ kind.grammar) (hp : rule.shape.pair? = some pair) :
    ∃ half back, kind.Halves rule pair half back := by
  obtain ⟨half, hh, hname, hne, hpair⟩ := kind.sibling_rule rule hr pair hp
  obtain ⟨back, hback⟩ := Option.isSome_iff_exists.mp hpair
  have hopposite := (kind.sibling_comm rule hr pair hp half hh back hback).mp hname.symm
  exact ⟨half, back, hr, hh, hne, hp, hback, hname.symm, hopposite⟩

/-- A dot and a colon have siblings that nothing can stand in for. -/
theorem exists_bound_half (hr : rule ∈ kind.grammar) {sibling : String}
    (hb : kind = .borrow ∧ rule.name = "dot" ∧ sibling = "name" ∨
      kind = .bind ∧ rule.name = "colon" ∧ sibling = "value") :
    ∃ half pair back, kind.Halves rule pair half back ∧ half.name = sibling ∧
      back.fallback = none := by
  have hpair : ∃ pair ∈ rule.shape.pair?, pair.sibling = sibling := by
    obtain ⟨rfl, hn, rfl⟩ | ⟨rfl, hn, rfl⟩ := hb
    all_goals
      revert rule
      decide
  have hback : ∀ half ∈ kind.grammar, half.name = sibling → ∀ back ∈ half.shape.pair?,
      back.fallback = none := by
    obtain ⟨rfl, _, rfl⟩ | ⟨rfl, _, rfl⟩ := hb
    all_goals decide
  obtain ⟨pair, hp, rfl⟩ := hpair
  obtain ⟨half, back, hh⟩ := exists_halves hr hp
  exact ⟨half, pair, back, hh, hh.sibling.symm,
    hback half hh.half_mem hh.sibling.symm back hh.back_eq⟩

theorem releaseSibling_filled {old : Field Node} (hr : rule ∈ kind.grammar)
    (hl : fields.lookup rule.name = some old) (new : Node) :
    kind.releaseSibling rule.name (Fields.assign rule.name (.optional (some new)) fields) =
      Fields.assign rule.name (.optional (some new)) fields :=
  releaseSibling_eq_self hr fun _ _ _ => by
    rw [Fields.lookup_assign_self hl]
    rfl

namespace Halves

theorem symm (h : kind.Halves rule pair half back) : kind.Halves half back rule pair :=
  ⟨h.half_mem, h.rule_mem, h.ne.symm, h.back_eq, h.pair_eq, h.opposite, h.sibling⟩

theorem arity (h : kind.Halves rule pair half back) : rule.shape.arity = .optional :=
  Shape.arity_of_pair? (by simp [h.pair_eq])

theorem layout_assign (h : kind.Halves rule pair half back) (hl : fields.layout = kind.layout)
    (node : Option Node) :
    (Fields.assign rule.name (.optional node) fields).layout = kind.layout :=
  Kind.layout_assign hl h.rule_mem h.arity.symm

theorem allows_none (h : kind.Halves rule pair half back) :
    rule.shape.Allows (.optional none) :=
  Kind.allows_none (by simp [h.pair_eq])

theorem sibling_ne (h : kind.Halves rule pair half back) (ho : other ∈ kind.grammar)
    {opposite : Pair} (hopp : opposite ∈ other.shape.pair?) (hne : other.name ≠ half.name) :
    opposite.sibling ≠ rule.name := by
  intro he
  have hother := (kind.sibling_comm other ho opposite hopp rule h.rule_mem pair h.pair_eq).mp he
  exact hne (hother.symm.trans h.sibling)

/-- Before two halves of which the last has no fallback there is no pair. -/
theorem exists_before (h : kind.Halves rule pair half back) (hb : back.fallback = none) :
    ∃ before, kind.grammar = before ++ [rule, half] ∧
      ∀ other ∈ before, other.shape.pair? = none :=
  ⟨kind.grammar.takeWhile (·.shape.pair?.isNone),
    kind.bound_last half h.half_mem back h.back_eq hb rule h.rule_mem h.opposite.symm,
    fun _ ho => by simpa using List.mem_takeWhile_imp ho⟩

section Assigned

variable {first second : Option Node}

theorem lookup_second (h : kind.Halves rule pair half back)
    (hn : fields.map (·.1) = kind.grammar.map (·.name)) (first second : Field Node) :
    (Fields.assign half.name second (Fields.assign rule.name first fields)).lookup half.name =
      some second := by
  obtain ⟨held, hheld⟩ := exists_lookup hn h.half_mem
  exact Fields.lookup_assign_self ((Fields.lookup_assign_of_ne h.ne).trans hheld)

theorem lookup_first (h : kind.Halves rule pair half back)
    (hn : fields.map (·.1) = kind.grammar.map (·.name)) (first second : Field Node) :
    (Fields.assign half.name second (Fields.assign rule.name first fields)).lookup rule.name =
      some first := by
  obtain ⟨held, hheld⟩ := exists_lookup hn h.rule_mem
  rw [Fields.lookup_assign_of_ne h.ne.symm, Fields.lookup_assign_self hheld]

/-- Fields stay matched when the two halves of a pair are put or emptied together. -/
theorem matched_assign (h : kind.Halves rule pair half back) (hm : kind.Matched fields)
    (hs : first.isSome = second.isSome) :
    kind.Matched (Fields.assign half.name (.optional second)
      (Fields.assign rule.name (.optional first) fields)) := by
  have hfirst := h.lookup_first hm.names (.optional first) (.optional second)
  have hsecond := h.lookup_second hm.names (.optional first) (.optional second)
  refine ⟨h.symm.layout_assign (h.layout_assign hm.layout first) second,
    fun other ho opposite hopp => ?_⟩
  by_cases hr : other.name = rule.name
  · obtain rfl := eq_of_name_eq h.rule_mem ho hr
    obtain rfl := Option.some.inj (h.pair_eq.symm.trans hopp)
    simp [h.sibling, hfirst, hsecond, Field.isPresent_optional, hs]
  · by_cases hh : other.name = half.name
    · obtain rfl := eq_of_name_eq h.half_mem ho hh
      obtain rfl := Option.some.inj (h.back_eq.symm.trans hopp)
      simp [h.opposite, hfirst, hsecond, Field.isPresent_optional, hs]
    · have hnr := h.sibling_ne ho hopp hh
      have hnh := h.symm.sibling_ne ho hopp hr
      simp only [Fields.lookup_assign_of_ne hh, Fields.lookup_assign_of_ne hr,
        Fields.lookup_assign_of_ne hnh, Fields.lookup_assign_of_ne hnr]
      exact hm.paired other ho opposite hopp

/-- Every field but one half is allowed when the other half is. -/
theorem allowed_assign (h : kind.Halves rule pair half back) (hf : kind.Fits fields)
    (content : Field Node) (hs : half.shape.Allows (.optional second)) (ho : other ∈ kind.grammar)
    (hne : other.name ≠ rule.name) : ∃ held,
      (Fields.assign half.name (.optional second)
        (Fields.assign rule.name content fields)).lookup other.name = some held ∧
          other.shape.Allows held := by
  by_cases hh : other.name = half.name
  · obtain rfl := eq_of_name_eq h.half_mem ho hh
    exact ⟨_, h.lookup_second hf.names _ _, hs⟩
  · rw [Fields.lookup_assign_of_ne hh]
    exact hf.allowed_assign ho hne

theorem fits_assign (h : kind.Halves rule pair half back) (hf : kind.Fits fields)
    (hp : first.isSome = second.isSome) (ha : rule.shape.Allows (.optional first))
    (hs : half.shape.Allows (.optional second)) :
    kind.Fits (Fields.assign half.name (.optional second)
      (Fields.assign rule.name (.optional first) fields)) := by
  refine (h.matched_assign hf.matched hp).fits fun other ho => ?_
  by_cases hr : other.name = rule.name
  · obtain rfl := eq_of_name_eq h.rule_mem ho hr
    exact ⟨_, h.lookup_first hf.names _ _, ha⟩
  · exact h.allowed_assign hf _ hs ho hr

end Assigned

section Completed

variable {ε : Type} {fallback : Fallback}

/-- When a half is filled, the other one alone can become a gap. -/
theorem isGap_filled_of_ne (h : kind.Halves rule pair half back) (hm : kind.Matched fields)
    (ho : other ∈ kind.grammar) (hne : other.name ≠ half.name) (new : Node) :
    other.isGap (Fields.assign rule.name (.optional (some new)) fields) = false := by
  obtain ⟨held, hheld⟩ := exists_lookup hm.names h.rule_mem
  refine FieldRule.isGap_eq_false fun opposite hopp _ habsent => ?_
  have hr : other.name ≠ rule.name := by
    intro hr
    rw [hr, Fields.lookup_assign_self hheld] at habsent
    cases habsent
  rw [Fields.lookup_assign_of_ne hr] at habsent
  rw [Fields.lookup_assign_of_ne (h.sibling_ne ho hopp hne), ← hm.paired other ho opposite hopp]
  exact habsent

/-- A half that was filled while the other one is absent and has no fallback stays alone. -/
theorem completePairs_lone (h : kind.Halves rule pair half back) (hb : back.fallback = none)
    (hm : kind.Matched fields) (new : Node) :
    (kind.completePairs (Fields.assign rule.name (.optional (some new)) fields) :
      Construct ε Fields) = pure (Fields.assign rule.name (.optional (some new)) fields) := by
  refine completePairs_eq_pure (by simp [hm.names]) fun other ho => ?_
  by_cases hh : other.name = half.name
  · obtain rfl := eq_of_name_eq h.half_mem ho hh
    refine FieldRule.isGap_eq_false fun opposite hopp hsome _ => ?_
    obtain rfl := Option.some.inj (h.back_eq.symm.trans hopp)
    rw [hb] at hsome
    cases hsome
  · exact h.isGap_filled_of_ne hm ho hh new

/-- A half that was filled while the other one is absent has it filled too, when something can
stand in for it. -/
theorem completePairs_filled (h : kind.Halves rule pair half back)
    (hb : back.fallback = some fallback) (hm : kind.Matched fields)
    (hs : fields.lookup half.name = some (.optional none)) (new : Node) :
    (kind.completePairs (Fields.assign rule.name (.optional (some new)) fields) :
      Construct ε Fields) = do
        let stand ← Node.mark (fallback.symbolFor new)
        return Fields.assign half.name (.optional (some stand))
          (Fields.assign rule.name (.optional (some new)) fields) := by
  obtain ⟨held, hheld⟩ := exists_lookup hm.names h.rule_mem
  have hbeside : ((Fields.assign rule.name (.optional (some new)) fields).lookup back.sibling).bind
      (·.nodes.head?) = some new := by
    rw [h.opposite, Fields.lookup_assign_self hheld]
    rfl
  have hlacks : half.Lacks (Fields.assign rule.name (.optional (some new)) fields) back new :=
    ⟨h.back_eq, (Fields.lookup_assign_of_ne h.ne).trans hs, hbeside⟩
  exact completePairs_single (by simp [hm.names]) h.half_mem hlacks hb fun other ho hne =>
    h.isGap_filled_of_ne hm ho hne new

end Completed

section Lone

variable {content : Field Node}

/-- A rule without a pair is met as before, whatever becomes of a half. -/
theorem check_other (h : kind.Halves rule pair half back) (hf : kind.Fits fields)
    (ho : other ∈ kind.grammar) (hpair : other.shape.pair? = none) {held : Field Node}
    (hl : (Fields.assign rule.name content fields).lookup other.name = some held) :
    other.check kind (Fields.assign rule.name content fields) held = .ok () := by
  have hne : other.name ≠ rule.name := by
    intro he
    rw [eq_of_name_eq h.rule_mem ho he, h.pair_eq] at hpair
    cases hpair
  obtain ⟨allowed, hallowed, ha⟩ := hf.allowed_assign ho hne
  cases Option.some.inj (hl.symm.trans hallowed)
  exact (FieldRule.check_eq_ok_iff ..).mpr ⟨ha, fun _ hp => by simp [hpair] at hp⟩

/-- A half that is refused is what the check reports first, even if the other half is missing. -/
theorem check_refused (h : kind.Halves rule pair half back) (hb : back.fallback = none)
    (hf : kind.Fits fields) (ha : content.arity = rule.shape.arity)
    (hr : rule.Refuses kind content error) :
    kind.check (Fields.assign rule.name content fields) = .error error := by
  obtain ⟨before, hg, hbefore⟩ := h.exists_before hb
  obtain ⟨held, hheld⟩ := exists_lookup hf.names h.rule_mem
  refine check_eq_error_of_first (by simp [hf.names]) hg (fun other ho _ hl => ?_)
    (Fields.lookup_assign_self hheld) (hr.check_eq ha _)
  exact h.check_other hf (by simp [hg, ho]) (hbefore other ho) hl

/-- A half that is allowed but alone is reported at the other one. -/
theorem check_lone (h : kind.Halves rule pair half back) (hb : back.fallback = none)
    (hf : kind.Fits fields) (hs : fields.lookup half.name = some (.optional none)) {new : Node}
    (ha : rule.shape.Allows (.optional (some new))) :
    kind.check (Fields.assign rule.name (.optional (some new)) fields) =
      .error (.unpaired kind half.name rule.name) := by
  obtain ⟨before, hg, hbefore⟩ := h.exists_before hb
  obtain ⟨held, hheld⟩ := exists_lookup hf.names h.rule_mem
  have hown : (Fields.assign rule.name (.optional (some new)) fields).lookup rule.name =
      some (.optional (some new)) := Fields.lookup_assign_self hheld
  have hlast : kind.grammar = (before ++ [rule]) ++ half :: [] := by simp [hg]
  refine check_eq_error_of_first (by simp [hf.names]) hlast (fun other ho held hl => ?_)
    ((Fields.lookup_assign_of_ne h.ne).trans hs) ?_
  · rcases List.mem_append.mp ho with ho | ho
    · exact h.check_other hf (by simp [hg, ho]) (hbefore other ho) hl
    · obtain rfl := List.mem_singleton.mp ho
      cases Option.some.inj (hl.symm.trans hown)
      refine (FieldRule.check_eq_ok_iff ..).mpr ⟨ha, fun _ _ habsent => ?_⟩
      cases habsent
  · have hback := h.back_eq
    have hopposite := h.opposite
    obtain ⟨name, shape⟩ := half
    cases shape with
    | optional permits _ =>
      obtain rfl : _ = some back := hback
      simp [FieldRule.check, hopposite, hown, Field.isPresent_optional]
    | one | list => cases hback

end Lone

end Halves

end Kind

namespace FieldRule

variable {kind : Kind} {rule : FieldRule} {pair : Pair} {fallback : Fallback}
  {present stand : Node} {next : Nat}

theorem exists_standsFor (hr : rule ∈ kind.grammar) (hp : rule.shape.pair? = some pair)
    (hb : pair.fallback = some fallback) (present : Node) (next : Nat) :
    ∃ stand, rule.StandsFor present next stand := by
  obtain ⟨sibling, _⟩ := pair
  obtain rfl := hb
  obtain ⟨hcanonical, _⟩ := kind.fallback_fits rule hr _ hp fallback rfl _
    (fallback.symbolFor_mem present)
  obtain ⟨text, ht⟩ := Option.isSome_iff_exists.mp hcanonical
  exact ⟨_, .intro hp ht⟩

theorem StandsFor.exists_fallback (h : rule.StandsFor present next stand)
    (hp : rule.shape.pair? = some pair) : ∃ fallback, pair.fallback = some fallback := by
  obtain ⟨hown, _⟩ := h
  cases hp.symm.trans hown
  exact ⟨_, rfl⟩

theorem StandsFor.mark_eq {ε : Type} (h : rule.StandsFor present next stand)
    (hp : rule.shape.pair? = some pair) (hb : pair.fallback = some fallback) :
    (Node.mark (fallback.symbolFor present) : Construct ε Node) next = .ok stand (next + 1) := by
  obtain ⟨hown, ht⟩ := h
  cases hp.symm.trans hown
  cases hb
  rw [Node.mark, ht]
  rfl

theorem StandsFor.allows (h : rule.StandsFor present next stand) (hr : rule ∈ kind.grammar) :
    rule.shape.Allows (.optional (some stand)) := by
  obtain ⟨hp, ht⟩ := h
  obtain ⟨_, hpermit⟩ := kind.fallback_fits rule hr _ hp _ rfl _ (Fallback.symbolFor_mem _ present)
  have hs : rule.shape.pair?.isSome = true := by simp [hp]
  refine ⟨(Shape.arity_of_pair? hs).symm, fun node hn => ⟨_, hpermit, ?_⟩, by simp [Field.nodes]⟩
  obtain rfl : node = _ := by simpa [Field.nodes] using hn
  simp [Permit.admits, Node.isSymbol, Node.symbol?]

end FieldRule

namespace Node.WellFormed

variable {node new present stand : Node} {rule half : FieldRule} {pair back : Pair}
  {fallback : Fallback} {content : Field Node} {edit : Edit}

/-- In a well-formed node the halves of a pair are present together. -/
theorem exists_half (h : node.WellFormed) (hh : node.kind.Halves rule pair half back)
    (hf : node.field? rule.name = some content) :
    ∃ other, node.field? half.name = some (.optional other) ∧
      other.isSome = content.isPresent ∧ half.shape.Allows (.optional other) := by
  obtain ⟨held, hheld, ha⟩ := h.fits.allowed half hh.half_mem
  have hpaired := h.fits.paired rule hh.rule_mem pair hh.pair_eq
  have hfield : node.fields.lookup rule.name = some content := hf
  rw [hfield, hh.sibling, hheld] at hpaired
  have harity := ha.arity.trans hh.symm.arity
  cases held with
  | optional other =>
    exact ⟨other, hheld, (Field.isPresent_optional other).symm.trans hpaired.symm, ha⟩
  | one | list => cases harity

/-- A half that nothing can stand in for takes the other half with it. -/
theorem replace_released (h : node.WellFormed) (hh : node.kind.Halves rule pair half back)
    (hb : pair.fallback = none) (hf : node.field? rule.name = some content)
    (he : content.edit node.kind rule.name edit = .ok (.optional none)) (next : Nat) :
    node.replace rule.name edit next =
      .ok (.tree next node.kind (Fields.assign half.name (.optional none)
        (Fields.assign rule.name (.optional none) node.fields))) (next + 1) := by
  obtain ⟨sibling, _⟩ := pair
  obtain rfl : sibling = half.name := hh.sibling
  obtain rfl := hb
  have hlayout := hh.layout_assign h.fits.layout none
  have harity : ∀ held, (half.name, held) ∈ Fields.assign rule.name (.optional none) node.fields →
      held.arity = .optional :=
    fun held hm => (Kind.arity_of_mem hlayout hh.half_mem hm).trans hh.symm.arity
  have hnone : (Field.optional (none : Option Node)).isPresent = false := rfl
  have habsent : ((Fields.assign rule.name (.optional none) node.fields).lookup rule.name).any
      (·.isPresent) = false := by
    simp [Fields.any_isPresent_assign_absent hnone]
  have hfits := hh.fits_assign h.fits rfl hh.allows_none hh.symm.allows_none
  rw [replace_eq hf he, Kind.releaseSibling_eq_assign hh.rule_mem hh.pair_eq harity habsent,
    hfits.matched.completePairs, pure_bind, Kind.assemble_ok hfits]

/-- A token stands in for a half that is removed from beside the other one. -/
theorem replace_restored (h : node.WellFormed) (hh : node.kind.Halves rule pair half back)
    (hb : pair.fallback = some fallback) (hf : node.field? rule.name = some content)
    (he : content.edit node.kind rule.name edit = .ok (.optional none))
    (hs : node.field? half.name = some (.optional (some present))) {next : Nat}
    (hst : rule.StandsFor present next stand) :
    node.replace rule.name edit next =
      .ok (.tree (next + 1) node.kind
        (Fields.assign rule.name (.optional (some stand)) node.fields)) (next + 2) := by
  obtain ⟨other, hother, hpresent, _⟩ := h.exists_half hh hf
  obtain rfl : other = some present := by simpa using hother.symm.trans hs
  obtain ⟨sibling, _⟩ := pair
  obtain rfl : sibling = half.name := hh.sibling
  obtain rfl := hb
  have hrelease : node.kind.releaseSibling rule.name
      (Fields.assign rule.name (.optional none) node.fields) =
        Fields.assign rule.name (.optional none) node.fields :=
    Kind.releaseSibling_eq_self hh.rule_mem fun pair hpair hnone => by
      cases hh.pair_eq.symm.trans hpair
      cases hnone
  have hcomplete := h.fits.matched.completePairs_emptied (ε := EditError) hh.rule_mem hh.pair_eq hs
  have hstand : (Field.optional (some stand)).isPresent = content.isPresent := hpresent
  have hfits := h.fits.assign hh.rule_mem hf (fun _ => hstand) (hst.allows hh.rule_mem)
  rw [replace_eq hf he, hrelease, hcomplete, bind_assoc,
    Construct.bind_ok (hst.mark_eq hh.pair_eq rfl), pure_bind, Kind.assemble_ok hfits]

theorem absent_half (h : node.WellFormed) (hh : node.kind.Halves rule pair half back)
    (hf : node.field? rule.name = some content) (ha : content.isPresent = false) :
    node.fields.lookup half.name = some (.optional none) := by
  obtain ⟨other, hother, habsent, _⟩ := h.exists_half hh hf
  rw [ha] at habsent
  cases other with
  | none => exact hother
  | some => cases habsent

section Filled

variable (h : node.WellFormed) (hh : node.kind.Halves rule pair half back)
  (hf : node.field? rule.name = some content)
  (he : content.edit node.kind rule.name edit = .ok (.optional (some new)))

include h hh hf he

/-- Filling a half makes the other one too, when something can stand in for it. -/
theorem replace_filled (ha : content.isPresent = false) (hb : back.fallback = some fallback)
    {next : Nat} (hst : half.StandsFor new next stand) :
    node.replace rule.name edit next =
      node.kind.assemble (Fields.assign half.name (.optional (some stand))
        (Fields.assign rule.name (.optional (some new)) node.fields)) (next + 1) := by
  have hcomplete := hh.completePairs_filled (ε := EditError) hb h.fits.matched
    (h.absent_half hh hf ha) new
  rw [replace_eq hf he, Kind.releaseSibling_filled hh.rule_mem hf, hcomplete, bind_assoc,
    Construct.bind_ok (hst.mark_eq hh.back_eq hb), pure_bind]

/-- Filling a half whose other one nothing can stand in for leaves it alone. -/
theorem replace_lone (hb : back.fallback = none) :
    node.replace rule.name edit =
      node.kind.assemble (Fields.assign rule.name (.optional (some new)) node.fields) := by
  rw [replace_eq hf he, Kind.releaseSibling_filled hh.rule_mem hf,
    hh.completePairs_lone hb h.fits.matched, pure_bind]

end Filled

end Node.WellFormed

end ProgramTree
