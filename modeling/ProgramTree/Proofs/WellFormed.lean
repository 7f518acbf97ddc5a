import ProgramTree.ShapeCheck
import ProgramTree.Walk

namespace ProgramTree

def Shape.nonEmpty : Shape → Bool
  | list nonEmpty _ => nonEmpty
  | _ => false

/-- What a field may hold by itself, whatever the other fields hold. -/
structure Shape.Allows (shape : Shape) (content : Field Node) : Prop where
  arity : content.arity = shape.arity
  admitted : ∀ node ∈ content.nodes, ∃ permit ∈ shape.permits, permit.admits node = true
  nonEmpty : shape.nonEmpty = true → content.nodes ≠ []

/-- The fields have the names of the grammar in order, each holds what its rule allows, and the two
halves of a pair are both present or both absent. -/
structure Kind.Fits (kind : Kind) (fields : Fields) : Prop where
  names : fields.map (·.1) = kind.grammar.map (·.name)
  allowed : ∀ rule ∈ kind.grammar, ∃ content,
    fields.lookup rule.name = some content ∧ rule.shape.Allows content
  paired : ∀ rule ∈ kind.grammar, ∀ pair ∈ rule.shape.pair?,
    (fields.lookup rule.name).any (·.isPresent) = (fields.lookup pair.sibling).any (·.isPresent)

/-- Every node of the tree fits the grammar of its kind. -/
inductive Node.WellFormed : Node → Prop
  | token (id : Nat) (symbol : Symbol) (text : String) : WellFormed (.token id symbol text)
  | tree {id : Nat} {kind : Kind} {fields : Fields} (hk : kind ≠ .token) (hf : kind.Fits fields)
      (hc : ∀ child ∈ (Node.tree id kind fields).children, WellFormed child) :
      WellFormed (.tree id kind fields)

theorem Shape.allows_iff {shape : Shape} {content : Field Node} :
    shape.Allows content ↔ content.arity = shape.arity ∧
      (∀ node ∈ content.nodes, ∃ permit ∈ shape.permits, permit.admits node = true) ∧
      (shape.nonEmpty = true → content.nodes ≠ []) :=
  ⟨fun h => ⟨h.arity, h.admitted, h.nonEmpty⟩, fun h => ⟨h.1, h.2.1, h.2.2⟩⟩

theorem lookup_of_mem_of_nodup {fields : Fields} (hn : (fields.map (·.1)).Nodup) {name : String}
    {content : Field Node} (h : (name, content) ∈ fields) : fields.lookup name = some content := by
  induction fields with
  | nil => simp at h
  | cons entry rest ih =>
    obtain ⟨key, old⟩ := entry
    simp only [List.map_cons, List.nodup_cons] at hn
    rcases List.mem_cons.mp h with he | hr
    · cases he
      simp
    · have hk : name ≠ key := by
        rintro rfl
        exact hn.1 (List.mem_map.mpr ⟨_, hr, rfl⟩)
      simp [List.lookup_cons, beq_eq_false_iff_ne.mpr hk, ih hn.2 hr]

theorem forM_eq_ok_iff {ε α : Type} (f : α → Except ε Unit) (items : List α) :
    items.forM f = .ok () ↔ ∀ item ∈ items, f item = .ok () := by
  induction items with
  | nil => simp [pure, Except.pure]
  | cons item rest ih =>
    rw [List.forM_eq_forM, List.forM_cons, List.forall_mem_cons, ← ih]
    cases hf : f item with
    | error => simp [bind, Except.bind]
    | ok => simp [bind, Except.bind]

namespace FieldRule

theorem allow_eq_ok_iff (rule : FieldRule) (kind : Kind) (node : Node) :
    rule.allow kind node = .ok () ↔ ∃ permit ∈ rule.shape.permits, permit.admits node = true := by
  unfold allow
  rw [← List.any_eq_true]
  split <;> simp [*]

theorem check_eq_ok_iff (rule : FieldRule) (kind : Kind) (fields : Fields)
    (content : Field Node) :
    rule.check kind fields content = .ok () ↔
      rule.shape.Allows content ∧
        ∀ pair ∈ rule.shape.pair?, content.isPresent = false →
          (fields.lookup pair.sibling).any (·.isPresent) = false := by
  obtain ⟨name, shape⟩ := rule
  rw [Shape.allows_iff]
  cases shape with
  | one permits =>
    cases content with
    | one node =>
      simp only [check, allow_eq_ok_iff]
      simp [Field.arity, Shape.arity, Field.nodes, Shape.nonEmpty, Shape.pair?]
    | optional | list => simp [check, Field.arity, Shape.arity]
  | optional permits pair =>
    cases content with
    | optional node =>
      cases node with
      | some node =>
        simp only [check, allow_eq_ok_iff]
        simp [Field.arity, Shape.arity, Field.nodes, Shape.nonEmpty, Field.isPresent]
      | none =>
        cases pair with
        | none => simp [check, Field.arity, Shape.arity, Field.nodes, Shape.nonEmpty, Shape.pair?]
        | some pair =>
          have hn : (Field.optional (none : Option Node)).isPresent = false := rfl
          by_cases hs : (fields.lookup pair.sibling).any (·.isPresent) = true
          · simp [check, hs, hn, Shape.pair?]
          · simp [check, hs, hn, Shape.pair?, Field.arity, Shape.arity, Field.nodes, Shape.nonEmpty]
    | one | list => simp [check, Field.arity, Shape.arity]
  | list nonEmpty permits =>
    cases content with
    | list nodes =>
      simp only [check]
      split
      next h => simp_all [Field.nodes, Shape.nonEmpty]
      next h =>
        rw [forM_eq_ok_iff]
        simp only [allow_eq_ok_iff]
        simp_all [Field.arity, Shape.arity, Field.nodes, Shape.nonEmpty, Shape.pair?]
    | one | optional => simp [check, Field.arity, Shape.arity]

end FieldRule

namespace Kind

variable {kind : Kind} {fields : Fields}

theorem check_eq_ok_iff (hn : fields.map (·.1) = kind.grammar.map (·.name)) :
    kind.check fields = .ok () ↔
      ∀ entry ∈ kind.grammar.zip fields, entry.1.check kind fields entry.2.2 = .ok () := by
  have hl : fields.length = kind.grammar.length := by simpa using congrArg List.length hn
  rw [check, if_pos hl, forM_eq_ok_iff]

/-- When the fields have the names of the grammar, every rule is zipped with the field it names. -/
theorem mem_zip_iff (hn : fields.map (·.1) = kind.grammar.map (·.name)) {rule : FieldRule}
    {content : Field Node} :
    (∃ name, (rule, name, content) ∈ kind.grammar.zip fields) ↔
      rule ∈ kind.grammar ∧ fields.lookup rule.name = some content := by
  have hd : (fields.map (·.1)).Nodup := hn ▸ grammar_names_nodup kind
  have key : ∀ (index : Nat) (hr : index < kind.grammar.length) (hf : index < fields.length),
      (fields[index]).1 = (kind.grammar[index]).name := by
    intro index hr hf
    have h := congrArg (·[index]?) hn
    simpa [hr, hf] using h
  constructor
  · rintro ⟨name, hm⟩
    obtain ⟨index, hi, he⟩ := List.getElem_of_mem hm
    simp only [List.length_zip, Nat.lt_min] at hi
    rw [List.getElem_zip, Prod.mk.injEq] at he
    obtain ⟨hr, hf⟩ := he
    have hk := key index hi.1 hi.2
    rw [hr, hf] at hk
    subst hk
    exact ⟨hr ▸ List.getElem_mem hi.1, lookup_of_mem_of_nodup hd (hf ▸ List.getElem_mem hi.2)⟩
  · rintro ⟨hr, hl⟩
    obtain ⟨index, hi, rfl⟩ := List.getElem_of_mem hr
    have hlen : fields.length = kind.grammar.length := by simpa using congrArg List.length hn
    have hif : index < fields.length := by omega
    have hk := key index hi hif
    have hm : (kind.grammar[index].name, (fields[index]).2) ∈ fields :=
      hk ▸ List.getElem_mem hif
    have hc := Option.some.inj (hl.symm.trans (lookup_of_mem_of_nodup hd hm))
    subst hc
    refine ⟨(fields[index]).1, List.mem_iff_getElem.mpr ⟨index, ?_, ?_⟩⟩
    · rw [List.length_zip]
      omega
    · simp

theorem exists_lookup (hn : fields.map (·.1) = kind.grammar.map (·.name)) {rule : FieldRule}
    (hr : rule ∈ kind.grammar) : ∃ content, fields.lookup rule.name = some content := by
  have hm : rule.name ∈ fields.map (·.1) := hn ▸ List.mem_map.mpr ⟨rule, hr, rfl⟩
  obtain ⟨⟨name, content⟩, hf, he⟩ := List.mem_map.mp hm
  cases he
  exact ⟨content, lookup_of_mem_of_nodup (hn ▸ grammar_names_nodup kind) hf⟩

/-- An absent half has an absent sibling, for each half of a pair: so both are alike. -/
theorem isPresent_eq_of_absent
    (ha : ∀ rule ∈ kind.grammar, ∀ pair ∈ rule.shape.pair?,
      (fields.lookup rule.name).any (·.isPresent) = false →
        (fields.lookup pair.sibling).any (·.isPresent) = false)
    {rule : FieldRule} (hr : rule ∈ kind.grammar) {pair : Pair} (hp : pair ∈ rule.shape.pair?) :
    (fields.lookup rule.name).any (·.isPresent) =
      (fields.lookup pair.sibling).any (·.isPresent) := by
  obtain ⟨back, hb, he⟩ := pair_symmetric kind rule hr pair hp
  obtain ⟨other, ho, hs⟩ := Option.bind_eq_some_iff.mp hb
  have hname : other.name = pair.sibling := by simpa using List.find?_some ho
  have hback := ha other (List.mem_of_find?_eq_some ho) back hs
  rw [hname, he] at hback
  have hforth := ha rule hr pair hp
  cases hl : (fields.lookup rule.name).any (·.isPresent) with
  | false => exact (hforth hl).symm
  | true =>
    cases hq : (fields.lookup pair.sibling).any (·.isPresent) with
    | false => exact absurd (hback hq) (by simp [hl])
    | true => rfl

/-- Fields under the names of the grammar fit it exactly when they pass the check. -/
theorem fits_iff : kind.Fits fields ↔
    fields.map (·.1) = kind.grammar.map (·.name) ∧ kind.check fields = .ok () := by
  constructor
  · intro h
    refine ⟨h.names, (check_eq_ok_iff h.names).mpr ?_⟩
    rintro ⟨rule, name, content⟩ hm
    obtain ⟨hr, hl⟩ := (mem_zip_iff h.names).mp ⟨name, hm⟩
    obtain ⟨other, ho, ha⟩ := h.allowed rule hr
    cases Option.some.inj (hl.symm.trans ho)
    refine (FieldRule.check_eq_ok_iff rule kind fields content).mpr ⟨ha, fun pair hp hc => ?_⟩
    rw [← h.paired rule hr pair hp, hl]
    exact hc
  · rintro ⟨hn, hc⟩
    rw [check_eq_ok_iff hn] at hc
    have hchecked : ∀ rule ∈ kind.grammar, ∀ content, fields.lookup rule.name = some content →
        rule.shape.Allows content ∧ ∀ pair ∈ rule.shape.pair?, content.isPresent = false →
          (fields.lookup pair.sibling).any (·.isPresent) = false := by
      intro rule hr content hl
      obtain ⟨name, hm⟩ := (mem_zip_iff hn).mpr ⟨hr, hl⟩
      exact (FieldRule.check_eq_ok_iff rule kind fields content).mp (hc _ hm)
    refine ⟨hn, fun rule hr => ?_, fun rule hr pair hp => ?_⟩
    · obtain ⟨content, hl⟩ := exists_lookup hn hr
      exact ⟨content, hl, (hchecked rule hr content hl).1⟩
    · refine isPresent_eq_of_absent (fun rule hr pair hp habs => ?_) hr hp
      obtain ⟨content, hl⟩ := exists_lookup hn hr
      rw [hl] at habs
      exact (hchecked rule hr content hl).2 pair hp habs

theorem fits_named {contents : List (Field Node)}
    (h : kind.check (kind.named contents) = .ok ()) : kind.Fits (kind.named contents) := by
  refine fits_iff.mpr ⟨?_, h⟩
  unfold check at h
  split at h
  next hl =>
    rw [length_named, ← length_layout] at hl
    rw [map_fst_named hl, map_fst_layout]
  next => cases h

end Kind

/-- Whether a node by itself fits the grammar of its kind. -/
def Node.isShaped : Node → Bool
  | token .. => true
  | tree _ kind fields =>
    kind != .token && fields.map (·.1) == kind.grammar.map (·.name) && (kind.check fields).toBool

theorem Node.isShaped_tree {id : Nat} {kind : Kind} {fields : Fields} :
    (Node.tree id kind fields).isShaped = true ↔ kind ≠ .token ∧ kind.Fits fields := by
  rw [Kind.fits_iff]
  cases hc : kind.check fields <;> simp [isShaped, hc, Except.toBool]

namespace Node.WellFormed

variable {node child : Node}

theorem fits (h : node.WellFormed) : node.kind.Fits node.fields := by
  cases h with
  | token => exact ⟨rfl, by simp [kind, Kind.grammar], by simp [kind, Kind.grammar]⟩
  | tree _ hf => exact hf

theorem of_mem_children (h : node.WellFormed) (hc : child ∈ node.children) :
    child.WellFormed := by
  cases h with
  | token => simp [children, fields] at hc
  | tree _ _ ht => exact ht child hc

theorem names_nodup (h : node.WellFormed) : (node.fields.map (·.1)).Nodup := by
  rw [h.fits.names]
  exact Kind.grammar_names_nodup node.kind

theorem field?_of_mem (h : node.WellFormed) {name : String} {content : Field Node}
    (hf : (name, content) ∈ node.fields) : node.field? name = some content :=
  lookup_of_mem_of_nodup h.names_nodup hf

/-- A field holds what the rule of its name allows. -/
theorem exists_rule_of_mem (h : node.WellFormed) {name : String} {content : Field Node}
    (hf : (name, content) ∈ node.fields) :
    ∃ rule ∈ node.kind.grammar, rule.name = name ∧ rule.shape.Allows content := by
  have hm : name ∈ node.kind.grammar.map (·.name) := by
    rw [← h.fits.names]
    exact List.mem_map.mpr ⟨_, hf, rfl⟩
  obtain ⟨rule, hr, rfl⟩ := List.mem_map.mp hm
  obtain ⟨other, ho, ha⟩ := h.fits.allowed rule hr
  have he : other = content := Option.some.inj (ho.symm.trans (h.field?_of_mem hf))
  exact ⟨rule, hr, rfl, he ▸ ha⟩

/-- Every child stands in a field whose rule allows it. -/
theorem exists_rule (h : node.WellFormed) (hc : child ∈ node.children) :
    ∃ rule ∈ node.kind.grammar, ∃ content, node.field? rule.name = some content ∧
      child ∈ content.nodes ∧ rule.shape.Allows content := by
  obtain ⟨⟨name, content⟩, hf, hn⟩ := List.mem_flatMap.mp hc
  obtain ⟨rule, hr, rfl, ha⟩ := h.exists_rule_of_mem hf
  exact ⟨rule, hr, content, h.field?_of_mem hf, hn, ha⟩

theorem exists_single? (h : node.WellFormed) {name : String} {permit : Permit}
    (hr : ⟨name, .one [permit]⟩ ∈ node.kind.grammar) :
    ∃ content, node.single? name = some content ∧ content ∈ node.children ∧
      permit.admits content = true := by
  obtain ⟨content, hf, ha⟩ := h.fits.allowed _ hr
  cases content with
  | one single =>
    have hs : node.field? name = some (.one single) := hf
    obtain ⟨other, hp, hadmits⟩ := ha.admitted single (by simp [Field.nodes])
    cases List.mem_singleton.mp hp
    exact ⟨single, by simp [single?, hs], mem_children_of_field? hs (by simp [Field.nodes]), hadmits⟩
  | optional => cases ha.arity
  | list => cases ha.arity

/-- The field of a kind that holds one node of one class. -/
theorem exists_single?_of_kind (h : node.WellFormed) {kind : Kind} (hk : node.kind = kind)
    (name : String) (permit : Permit) (hr : ⟨name, .one [permit]⟩ ∈ kind.grammar) :
    ∃ content, node.single? name = some content ∧ content ∈ node.children ∧
      permit.admits content = true :=
  h.exists_single? (hk ▸ hr)

theorem admitted_of_mem_elements (h : node.WellFormed) {name : String} {nonEmpty : Bool}
    {permits : List Permit} (hr : ⟨name, .list nonEmpty permits⟩ ∈ node.kind.grammar)
    (hc : child ∈ node.elements name) : ∃ permit ∈ permits, permit.admits child = true := by
  obtain ⟨content, hf, ha⟩ := h.fits.allowed _ hr
  have hl : node.field? name = some content := hf
  unfold elements at hc
  rw [hl] at hc
  cases content with
  | list nodes => exact ha.admitted child hc
  | one | optional => cases ha.arity

end Node.WellFormed

end ProgramTree
