import ProgramTree.Proofs.PairedEdits

namespace ProgramTree

namespace Kind

/-- The delimiters of words are formats and match each other. -/
theorem words_rules :
    ∀ rule ∈ words.grammar, ∀ pair ∈ rule.shape.pair?,
      pair.fallback = some .matchingFormat ∧ rule.shape.permits = Symbol.formats.map .symbol := by
  decide

end Kind

/-- What a node becomes when the child at a step is removed, and the next unused number then. -/
inductive Node.Removed (node : Node) (step : Step) (next : Nat) : Node → Nat → Prop
  /-- The other elements of a list stay, in their order. -/
  | element {elements : List Node} {index : Nat}
      (hf : node.field? step.field = some (.list elements)) (hi : step.index = some index) :
      Removed node step next
        (.tree next node.kind
          (Fields.assign step.field (.list (elements.eraseIdx index)) node.fields))
        (next + 1)
  | unpaired {rule : FieldRule} {permits : List Permit}
      (hr : node.kind.rule? step.field = some rule) (hs : rule.shape = .optional permits none) :
      Removed node step next
        (.tree next node.kind (Fields.assign step.field (.optional none) node.fields)) (next + 1)
  /-- The sibling goes too. -/
  | bound {sibling : String}
      (hb : node.kind = .borrow ∧ step.field = "name" ∧ sibling = "dot" ∨
        node.kind = .bind ∧ step.field = "value" ∧ sibling = "colon") :
      Removed node step next
        (.tree next node.kind
          (Fields.assign sibling (.optional none) (Fields.assign step.field (.optional none) node.fields)))
        (next + 1)
  /-- A token of canonical text stands in; the sibling stays. -/
  | delimiter {rule : FieldRule} {sibling text : String} {fallback : Fallback} {present : Node}
      (hr : node.kind.rule? step.field = some rule)
      (hp : rule.shape.pair? = some ⟨sibling, some fallback⟩) (hne : sibling ≠ step.field)
      (hs : node.field? sibling = some (.optional (some present)))
      (ht : (fallback.symbolFor present).canonical = some text)
      (hw : node.kind = .words → present.symbol? = some (fallback.symbolFor present)) :
      Removed node step next
        (.tree (next + 1) node.kind
          (Fields.assign step.field
            (.optional (some (.token next (fallback.symbolFor present) text))) node.fields))
        (next + 2)

namespace Node

variable {parent child old : Node} {step : Step} {rule : FieldRule} {content : Field Node}
  {next : Nat}

theorem Holding.edit_none_list {elements : List Node} {index : Nat}
    (h : parent.Holding step child rule (.list elements)) (hf : parent.Foremost step child)
    (hs : old.same child = true) (hi : step.index = some index) :
    (Field.list elements).edit parent.kind rule.name (.child (some old) none) =
      .ok (.list (elements.eraseIdx index)) := by
  have hid : old.id = child.id := by simpa [same] using hs
  have hfind : elements.findIdx? (·.same old) = some index := by
    simpa [same, hid] using hf elements index (h.name ▸ h.field) hi
  simp [Field.edit, hfind, List.eraseIdx_eq_take_drop_succ]

theorem Holding.edit_none_optional {present : Option Node}
    (h : parent.Holding step child rule (.optional present)) (hs : old.same child = true) :
    present = some child ∧
      (Field.optional present).edit parent.kind rule.name (.child (some old) none) =
        .ok (.optional none) := by
  obtain ⟨_, rfl⟩ := Field.at?_optional.mp h.place
  exact ⟨rfl, by simp [Field.edit, sameOption, hs]⟩

theorem Holding.remove_single (h : parent.Holding step child rule content)
    {permits : List Permit} (hr : rule.shape = .one permits) (hs : old.same child = true) :
    parent.replace step.field (.child (some old) none) next =
      .error (.shape (.missing parent.kind step.field)) next := by
  have harity := h.allows.arity
  rw [hr] at harity
  cases content with
  | one node =>
    obtain ⟨_, rfl⟩ := Field.at?_one.mp h.place
    rw [← h.name]
    exact replace_eq_error h.field (by simp [Field.edit, hs]) next
  | optional | list => cases harity

theorem Holding.list_content (h : parent.Holding step child rule content) {nonEmpty : Bool}
    {permits : List Permit} (hr : rule.shape = .list nonEmpty permits) :
    ∃ elements index, content = .list elements ∧ step.index = some index ∧
      elements[index]? = some child ∧ parent.elements step.field = elements := by
  have harity := h.allows.arity
  have hfield := h.field
  rw [hr] at harity
  cases content with
  | list elements =>
    obtain ⟨index, hi, hget⟩ := Field.at?_list.mp h.place
    rw [h.name] at hfield
    exact ⟨elements, index, rfl, hi, hget, by simp [Node.elements, hfield]⟩
  | one | optional => cases harity

theorem Holding.optional_content (h : parent.Holding step child rule content)
    {permits : List Permit} {pair : Option Pair} (hr : rule.shape = .optional permits pair)
    (hs : old.same child = true) :
    content.edit parent.kind rule.name (.child (some old) none) = .ok (.optional none) := by
  have harity := h.allows.arity
  rw [hr] at harity
  cases content with
  | optional present => exact (h.edit_none_optional hs).2
  | one | list => cases harity

/-- In words the token that stands in is of the format that is left. -/
theorem symbol?_of_words {present : Node} {half : FieldRule} {fallback : Fallback}
    (hk : parent.kind = .words) (hr : rule ∈ parent.kind.grammar)
    (hp : rule.shape.pair? = some ⟨half.name, some fallback⟩) (hh : half ∈ parent.kind.grammar)
    (hpair : half.shape.pair?.isSome = true)
    (ha : ∃ permit ∈ half.shape.permits, permit.admits present = true) :
    present.symbol? = some (fallback.symbolFor present) := by
  rw [hk] at hr hh
  obtain ⟨opposite, hopp⟩ := Option.isSome_iff_exists.mp hpair
  have hfallback := (Kind.words_rules rule hr _ hp).1
  cases hfallback
  obtain ⟨permit, hpermit, hadmits⟩ := ha
  rw [(Kind.words_rules half hh opposite hopp).2] at hpermit
  obtain ⟨symbol, hs, rfl⟩ := List.mem_map.mp hpermit
  have hsymbol : present.symbol? = some symbol := by simpa [Permit.admits, isSymbol] using hadmits
  rw [hsymbol, Fallback.symbolFor_matchingFormat hsymbol hs]

namespace WellFormed

/-- A list that must have elements keeps its last one. -/
theorem remove_last (h : parent.WellFormed) (hh : parent.Holding step child rule content)
    (hf : parent.Foremost step child) (hs : old.same child = true) {permits : List Permit}
    (hr : rule.shape = .list true permits) (hl : (parent.elements step.field).length = 1) :
    parent.replace step.field (.child (some old) none) next =
      .error (.shape (.emptyList parent.kind step.field)) next := by
  obtain ⟨elements, index, rfl, hi, hget, he⟩ := hh.list_content hr
  have hpair : rule.shape.pair?.isSome = true → False := by simp [hr, Shape.pair?]
  have hedit := hh.edit_none_list hf hs hi
  have hempty : elements.eraseIdx index = [] := by
    have hlt := (List.getElem?_eq_some_iff.mp hget).1
    rw [he] at hl
    rw [← List.length_eq_zero_iff, List.length_eraseIdx_of_lt hlt, hl]
  rw [hempty] at hedit
  have hreplace := h.replace_present hh hedit fun hp => (hpair hp).elim
  have hcheck : rule.check parent.kind (Fields.assign rule.name (.list []) parent.fields)
      (.list []) = .error (.emptyList parent.kind rule.name) := by
    simp [FieldRule.check, hr]
  have harity : (Field.list ([] : List Node)).arity = rule.shape.arity := by
    rw [hr]
    rfl
  have hassign := h.fits.check_assign hh.rule_mem hh.field harity (fun hp => (hpair hp).elim)
    hcheck
  rw [← hh.name, hreplace]
  exact Kind.assemble_error (Kind.layout_assign h.fits.layout hh.rule_mem harity) hassign next

theorem remove_element (h : parent.WellFormed) (hh : parent.Holding step child rule content)
    (hf : parent.Foremost step child) (hs : old.same child = true) {nonEmpty : Bool}
    {permits : List Permit} (hr : rule.shape = .list nonEmpty permits)
    (hl : nonEmpty = true → (parent.elements step.field).length ≠ 1) :
    ∃ trimmed after, parent.replace step.field (.child (some old) none) next = .ok trimmed after ∧
      parent.Removed step next trimmed after := by
  obtain ⟨elements, index, rfl, hi, hget, he⟩ := hh.list_content hr
  have hpair : rule.shape.pair?.isSome = true → False := by simp [hr, Shape.pair?]
  have hlt := (List.getElem?_eq_some_iff.mp hget).1
  have hallows : rule.shape.Allows (.list (elements.eraseIdx index)) := by
    refine ⟨by rw [hr]; rfl, fun node hn => ?_, fun hne hnil => ?_⟩
    · exact hh.allows.admitted node (List.mem_of_mem_eraseIdx hn)
    · rw [hr] at hne
      have hlen : (elements.eraseIdx index).length = 0 := congrArg List.length hnil
      have hone := hl hne
      rw [he] at hone
      rw [List.length_eraseIdx_of_lt hlt] at hlen
      omega
  have hreplace := h.replace_present hh (hh.edit_none_list hf hs hi) fun hp => (hpair hp).elim
  have hfits := h.fits.assign hh.rule_mem hh.field (fun hp => (hpair hp).elim) hallows
  rw [← hh.name, hreplace, Kind.assemble_ok hfits]
  refine ⟨_, _, rfl, ?_⟩
  rw [hh.name]
  exact .element (hh.name ▸ hh.field) hi

/-- Removing a child of an optional field without a sibling empties the field. -/
theorem replace_unpaired (h : parent.WellFormed) (hh : parent.Holding step child rule content)
    (hs : old.same child = true) {permits : List Permit}
    (hr : rule.shape = .optional permits none) :
    parent.replace step.field (.child (some old) none) next =
      .ok (.tree next parent.kind (Fields.assign step.field (.optional none) parent.fields))
        (next + 1) := by
  have hpair : rule.shape.pair?.isSome = true → False := by simp [hr, Shape.pair?]
  have hallows : rule.shape.Allows (.optional none) := by
    rw [hr]
    exact ⟨rfl, by simp [Field.nodes], by simp [Shape.nonEmpty]⟩
  have hreplace := h.replace_present hh (hh.optional_content hr hs) fun hp => (hpair hp).elim
  have hfits := h.fits.assign hh.rule_mem hh.field (fun hp => (hpair hp).elim) hallows
  rw [← hh.name, hreplace, Kind.assemble_ok hfits]

theorem remove_unpaired (h : parent.WellFormed) (hh : parent.Holding step child rule content)
    (hs : old.same child = true) {permits : List Permit}
    (hr : rule.shape = .optional permits none) :
    ∃ trimmed after, parent.replace step.field (.child (some old) none) next = .ok trimmed after ∧
      parent.Removed step next trimmed after :=
  ⟨_, _, h.replace_unpaired hh hs hr, .unpaired hh.rule?_eq hr⟩

theorem remove_bound (h : parent.WellFormed) (hh : parent.Holding step child rule content)
    (hs : old.same child = true) {permits : List Permit} {sibling : String}
    (hr : rule.shape = .optional permits (some ⟨sibling, none⟩)) :
    ∃ trimmed after, parent.replace step.field (.child (some old) none) next = .ok trimmed after ∧
      parent.Removed step next trimmed after := by
  have hp : rule.shape.pair? = some ⟨sibling, none⟩ := by simp [hr, Shape.pair?]
  obtain ⟨half, back, hhalves⟩ := Kind.exists_halves hh.rule_mem hp
  obtain rfl : sibling = half.name := hhalves.sibling
  have hreplace := h.replace_released hhalves rfl hh.field (hh.optional_content hr hs) next
  have hbound := parent.kind.bound_rules rule hh.rule_mem _ hp rfl
  rw [hh.name] at hreplace hbound
  exact ⟨_, _, hreplace, .bound hbound⟩

theorem remove_delimiter (h : parent.WellFormed) (hh : parent.Holding step child rule content)
    (hs : old.same child = true) {permits : List Permit} {sibling : String} {fallback : Fallback}
    (hr : rule.shape = .optional permits (some ⟨sibling, some fallback⟩)) :
    ∃ trimmed after, parent.replace step.field (.child (some old) none) next = .ok trimmed after ∧
      parent.Removed step next trimmed after := by
  have hp : rule.shape.pair? = some ⟨sibling, some fallback⟩ := by simp [hr, Shape.pair?]
  obtain ⟨half, back, hhalves⟩ := Kind.exists_halves hh.rule_mem hp
  obtain rfl : sibling = half.name := hhalves.sibling
  obtain ⟨other, hother, hpresent, hallowed⟩ := h.exists_half hhalves hh.field
  obtain ⟨present, rfl⟩ := Option.isSome_iff_exists.mp (hpresent.trans hh.isPresent)
  obtain ⟨stand, hst⟩ := FieldRule.exists_standsFor hh.rule_mem hp rfl present next
  have hreplace := h.replace_restored hhalves rfl hh.field (hh.optional_content hr hs) hother hst
  have hadmitted := hallowed.admitted present (by simp [Field.nodes])
  have hback : half.shape.pair?.isSome = true := by simp [hhalves.back_eq]
  obtain ⟨hown, ht⟩ := hst
  cases hp.symm.trans hown
  rw [hh.name] at hreplace
  exact ⟨_, _, hreplace, .delimiter hh.rule?_eq hp (hh.name ▸ hhalves.ne) hother ht fun hk =>
    symbol?_of_words hk hh.rule_mem hp hhalves.half_mem hback hadmitted⟩

/-- A child can be removed unless its field must hold a node. -/
theorem remove_child (h : parent.WellFormed) (hh : parent.Holding step child rule content)
    (hf : parent.Foremost step child) (hs : old.same child = true)
    (hsingle : ∀ permits, rule.shape ≠ .one permits)
    (hlast : ∀ permits, rule.shape = .list true permits →
      (parent.elements step.field).length ≠ 1) :
    ∃ trimmed after, parent.replace step.field (.child (some old) none) next = .ok trimmed after ∧
      parent.Removed step next trimmed after := by
  cases hr : rule.shape with
  | one permits => exact absurd hr (hsingle permits)
  | list nonEmpty permits =>
    exact h.remove_element hh hf hs hr fun hne => hlast permits (hne ▸ hr)
  | optional permits pair =>
    cases pair with
    | none => exact h.remove_unpaired hh hs hr
    | some pair =>
      obtain ⟨sibling, fallback⟩ := pair
      cases fallback with
      | none => exact h.remove_bound hh hs hr
      | some fallback => exact h.remove_delimiter hh hs hr

end WellFormed

end Node

end ProgramTree
