import ProgramTree.Proofs.FieldEdits

namespace ProgramTree

/-- A check of a list fails with its first item that is refused. -/
theorem forM_eq_error_iff {ε α : Type} {f : α → Except ε Unit} {items : List α} {error : ε} :
    items.forM f = .error error ↔ ∃ before item after, items = before ++ item :: after ∧
      (∀ other ∈ before, f other = .ok ()) ∧ f item = .error error := by
  constructor
  · intro h
    induction items with
    | nil => cases h
    | cons item rest ih =>
      rw [List.forM_eq_forM, List.forM_cons] at h
      cases hf : f item with
      | error other =>
        rw [hf] at h
        cases h
        exact ⟨[], item, rest, rfl, nofun, hf⟩
      | ok =>
        rw [hf] at h
        obtain ⟨before, found, after, rfl, hb, he⟩ := ih h
        exact ⟨item :: before, found, after, rfl, List.forall_mem_cons.mpr ⟨hf, hb⟩, he⟩
  · rintro ⟨before, item, after, rfl, hb, he⟩
    exact forM_append_eq_error hb he

namespace FieldRule

/-- What a rule asks of its field among the others: that it holds what its shape allows, and that
it is not the absent half of a pair whose other half is present. -/
structure Meets (rule : FieldRule) (fields : Fields) (content : Field Node) : Prop where
  allows : rule.shape.Allows content
  alone : ∀ pair ∈ rule.shape.pair?, content.isPresent = false →
    (fields.lookup pair.sibling).any (·.isPresent) = false

/-- Why a field does not meet its rule. Of a content of another shape nothing else is said. -/
inductive Faults (rule : FieldRule) (kind : Kind) (fields : Fields) (content : Field Node) :
    ShapeError → Prop
  | fieldArity (ha : content.arity ≠ rule.shape.arity) :
      Faults rule kind fields content (.fieldArity kind rule.name rule.shape.arity)
  | refused {error : ShapeError} (ha : content.arity = rule.shape.arity)
      (h : rule.Refuses kind content error) : Faults rule kind fields content error
  | unpaired {pair : Pair} (ha : content.arity = rule.shape.arity) (hp : pair ∈ rule.shape.pair?)
      (hn : content.isPresent = false)
      (hs : (fields.lookup pair.sibling).any (·.isPresent) = true) :
      Faults rule kind fields content (.unpaired kind rule.name pair.sibling)

variable {rule : FieldRule} {kind : Kind} {fields : Fields} {content : Field Node}
  {error : ShapeError}

theorem check_eq_ok_iff_meets :
    rule.check kind fields content = .ok () ↔ rule.Meets fields content :=
  (check_eq_ok_iff rule kind fields content).trans ⟨fun h => ⟨h.1, h.2⟩, fun h => ⟨h.1, h.2⟩⟩

theorem check_of_arity_ne (ha : content.arity ≠ rule.shape.arity) :
    rule.check kind fields content = .error (.fieldArity kind rule.name rule.shape.arity) := by
  obtain ⟨name, shape⟩ := rule
  cases shape <;> cases content <;> first | rfl | exact absurd rfl ha

theorem Faults.check_eq (h : rule.Faults kind fields content error) :
    rule.check kind fields content = .error error := by
  cases h with
  | fieldArity ha => exact check_of_arity_ne ha
  | refused ha h => exact h.check_eq ha fields
  | @unpaired pair ha hp hn hs =>
    obtain ⟨name, shape⟩ := rule
    cases shape with
    | optional permits held =>
      obtain rfl : held = some pair := hp
      obtain rfl : content = .optional none := Field.eq_none_of_absent ha hn
      simp [check, hs]
    | one | list => cases hp

theorem meets_or_faults (rule : FieldRule) (kind : Kind) (fields : Fields) (content : Field Node) :
    rule.Meets fields content ∨ ∃ error, rule.Faults kind fields content error := by
  by_cases ha : content.arity = rule.shape.arity
  · rcases allows_or_refuses kind ha with hallows | ⟨error, h⟩
    · by_cases hp : ∃ pair ∈ rule.shape.pair?, content.isPresent = false ∧
          (fields.lookup pair.sibling).any (·.isPresent) = true
      · obtain ⟨pair, hp, hn, hs⟩ := hp
        exact .inr ⟨_, .unpaired ha hp hn hs⟩
      · refine .inl ⟨hallows, fun pair hm hn => ?_⟩
        by_contra hs
        exact hp ⟨pair, hm, hn, by simpa using hs⟩
    · exact .inr ⟨error, .refused ha h⟩
  · exact .inr ⟨_, .fieldArity ha⟩

/-- A field is refused for the one reason that it has. -/
theorem check_eq_error_iff :
    rule.check kind fields content = .error error ↔ rule.Faults kind fields content error := by
  refine ⟨fun h => ?_, Faults.check_eq⟩
  rcases meets_or_faults rule kind fields content with hm | ⟨other, hf⟩
  · cases h.symm.trans (check_eq_ok_iff_meets.mpr hm)
  · cases h.symm.trans hf.check_eq
    exact hf

theorem Faults.ne_fieldCount {owner : Kind} {expected found : Nat} :
    ¬ rule.Faults kind fields content (.fieldCount owner expected found) := by
  intro h
  cases h with
  | refused _ h => cases h

end FieldRule

namespace Kind

variable {kind : Kind} {fields : Fields} {error : ShapeError}

/-- The fault of the first rule, in the order of the grammar, that its field does not meet. -/
inductive FirstFault (kind : Kind) (fields : Fields) (error : ShapeError) : Prop
  | intro {before after : List FieldRule} {rule : FieldRule} {content : Field Node}
      (hg : kind.grammar = before ++ rule :: after)
      (hb : ∀ other ∈ before, ∃ held, fields.lookup other.name = some held ∧
        other.Meets fields held)
      (hl : fields.lookup rule.name = some content) (hf : rule.Faults kind fields content error)

theorem check_of_length_ne (h : fields.length ≠ kind.grammar.length) :
    kind.check fields = .error (.fieldCount kind kind.grammar.length fields.length) :=
  if_neg h

/-- Fields that are as many as the rules are never found to be too many or too few. -/
theorem check_ne_fieldCount (h : fields.length = kind.grammar.length) {owner : Kind}
    {expected found : Nat} : kind.check fields ≠ .error (.fieldCount owner expected found) := by
  rw [check, if_pos h, Ne, forM_eq_error_iff]
  rintro ⟨_, ⟨rule, name, content⟩, _, -, -, he⟩
  exact FieldRule.Faults.ne_fieldCount (FieldRule.check_eq_error_iff.mp he)

theorem check_eq_ok_iff_meets (hn : fields.map (·.1) = kind.grammar.map (·.name)) :
    kind.check fields = .ok () ↔ ∀ rule ∈ kind.grammar, ∃ content,
      fields.lookup rule.name = some content ∧ rule.Meets fields content := by
  rw [check_eq_ok_iff hn]
  constructor
  · intro h rule hr
    obtain ⟨content, hl⟩ := exists_lookup hn hr
    obtain ⟨name, hm⟩ := (mem_zip_iff hn).mpr ⟨hr, hl⟩
    exact ⟨content, hl, FieldRule.check_eq_ok_iff_meets.mp (h _ hm)⟩
  · rintro h ⟨rule, name, content⟩ hm
    obtain ⟨hr, hl⟩ := (mem_zip_iff hn).mp ⟨name, hm⟩
    obtain ⟨held, hheld, hmeets⟩ := h rule hr
    cases Option.some.inj (hl.symm.trans hheld)
    exact FieldRule.check_eq_ok_iff_meets.mpr hmeets

theorem firstFault_of_check (hn : fields.map (·.1) = kind.grammar.map (·.name))
    (h : kind.check fields = .error error) : kind.FirstFault fields error := by
  have hlen : fields.length = kind.grammar.length := by simpa using congrArg List.length hn
  rw [check, if_pos hlen] at h
  obtain ⟨before, ⟨rule, name, content⟩, after, hz, hb, he⟩ := forM_eq_error_iff.mp h
  -- Rules and fields are paired by position, which under these names is the same as by name.
  have hlookup : ∀ entry ∈ kind.grammar.zip fields,
      fields.lookup entry.1.name = some entry.2.2 := by
    rintro ⟨other, key, held⟩ hm
    exact ((mem_zip_iff hn).mp ⟨key, hm⟩).2
  have hfst : (kind.grammar.zip fields).map (·.1) = kind.grammar :=
    List.map_fst_zip (Nat.le_of_eq hlen.symm)
  have hg : kind.grammar = before.map (·.1) ++ rule :: after.map (·.1) := by
    rw [← hfst, hz, List.map_append, List.map_cons]
  refine .intro hg (fun other ho => ?_) (hlookup (rule, name, content) (by simp [hz]))
    (FieldRule.check_eq_error_iff.mp he)
  obtain ⟨entry, hm, rfl⟩ := List.mem_map.mp ho
  exact ⟨_, hlookup entry (by simp [hz, hm]), FieldRule.check_eq_ok_iff_meets.mp (hb entry hm)⟩

theorem FirstFault.check_eq (hn : fields.map (·.1) = kind.grammar.map (·.name))
    (h : kind.FirstFault fields error) : kind.check fields = .error error := by
  obtain ⟨hg, hb, hl, hf⟩ := h
  refine check_eq_error_of_first hn hg (fun other ho held hheld => ?_) hl hf.check_eq
  obtain ⟨same, hsame, hmeets⟩ := hb other ho
  cases Option.some.inj (hheld.symm.trans hsame)
  exact FieldRule.check_eq_ok_iff_meets.mpr hmeets

/-- The check counts the fields first. Under the names of the grammar it then accepts exactly the
fields that meet their rules, which are those that fit the grammar, and otherwise reports the first
fault. -/
theorem check_outcome (kind : Kind) (fields : Fields) :
    (∀ owner expected found, kind.check fields = .error (.fieldCount owner expected found) ↔
      fields.length ≠ kind.grammar.length ∧
        owner = kind ∧ expected = kind.grammar.length ∧ found = fields.length) ∧
    (fields.map (·.1) = kind.grammar.map (·.name) →
      (kind.check fields = .ok () ↔ ∀ rule ∈ kind.grammar, ∃ content,
        fields.lookup rule.name = some content ∧ rule.Meets fields content) ∧
      (kind.check fields = .ok () ↔ kind.Fits fields) ∧
      ∀ error, kind.check fields = .error error ↔ kind.FirstFault fields error) := by
  refine ⟨fun owner expected found => ⟨fun h => ?_, ?_⟩, fun hn => ⟨check_eq_ok_iff_meets hn, ?_,
    fun error => ⟨firstFault_of_check hn, FirstFault.check_eq hn⟩⟩⟩
  · have hne : fields.length ≠ kind.grammar.length := fun he => check_ne_fieldCount he h
    cases h.symm.trans (check_of_length_ne hne)
    exact ⟨hne, rfl, rfl, rfl⟩
  · rintro ⟨hne, rfl, rfl, rfl⟩
    exact check_of_length_ne hne
  · exact ⟨fun hc => fits_iff.mpr ⟨hn, hc⟩, fun hf => (fits_iff.mp hf).2⟩

/-- A borrow that ends with its dot. -/
def halfOpenBorrow : Fields :=
  [("borrow", .one (.token 0 .borrow "↓")), ("source", .one (.token 1 .name "physics")),
   ("dot", .optional (some (.token 2 .access "."))), ("name", .optional none)]

/-- The dot of a borrow calls for the name of a member. -/
theorem check_outcome_halfOpenBorrow :
    halfOpenBorrow.map (·.1) = borrow.grammar.map (·.name) ∧ ¬ borrow.Fits halfOpenBorrow ∧
      borrow.FirstFault halfOpenBorrow (.unpaired .borrow "name" "dot") := by
  have hn : halfOpenBorrow.map (·.1) = borrow.grammar.map (·.name) := rfl
  have hc : borrow.check halfOpenBorrow = .error (.unpaired .borrow "name" "dot") := rfl
  obtain ⟨-, hfits, hfault⟩ := (check_outcome .borrow halfOpenBorrow).2 hn
  refine ⟨hn, fun h => ?_, (hfault _).mp hc⟩
  cases hc.symm.trans (hfits.mpr h)

end Kind

end ProgramTree
