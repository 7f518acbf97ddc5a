import Mathlib.Data.List.Nodup
import ProgramTree.Pairing
import ProgramTree.Proofs.AssignedFields

namespace ProgramTree

theorem Shape.arity_of_pair? {shape : Shape} (h : shape.pair?.isSome = true) :
    shape.arity = .optional := by
  cases shape with
  | optional => rfl
  | one | list => cases h

theorem Field.eq_none_of_absent {α : Type} {content : Field α} (ha : content.arity = .optional)
    (h : content.isPresent = false) : content = .optional none := by
  cases content with
  | optional node =>
    cases node with
    | none => rfl
    | some node => cases h
  | one | list => cases ha

theorem Field.exists_some_of_present {α : Type} {content : Field α}
    (ha : content.arity = .optional) (h : content.isPresent = true) :
    ∃ node, content = .optional (some node) := by
  cases content with
  | optional node =>
    cases node with
    | none => cases h
    | some node => exact ⟨node, rfl⟩
  | one | list => cases ha

namespace Kind

variable {kind : Kind} {fields : Fields} {rule : FieldRule} {content : Field Node}

theorem eq_of_name_eq {other : FieldRule} (hr : rule ∈ kind.grammar) (ho : other ∈ kind.grammar)
    (h : other.name = rule.name) : other = rule :=
  List.inj_on_of_nodup_map kind.grammar_names_nodup ho hr h

theorem rule?_name (hr : rule ∈ kind.grammar) : kind.rule? rule.name = some rule := by
  have hs : (kind.rule? rule.name).isSome = true :=
    List.find?_isSome.mpr ⟨rule, hr, by simp⟩
  obtain ⟨other, ho⟩ := Option.isSome_iff_exists.mp hs
  have hname : other.name = rule.name := by simpa using List.find?_some ho
  rw [ho, eq_of_name_eq hr (List.mem_of_find?_eq_some ho) hname]

/-- The rules before and after one have other names. -/
theorem name_ne_of_split {before after : List FieldRule} {other : FieldRule}
    (hg : kind.grammar = before ++ rule :: after) (ho : other ∈ before ++ after) :
    other.name ≠ rule.name := by
  have hnodup := kind.grammar_names_nodup
  rw [hg, List.map_append, List.map_cons, List.nodup_middle, ← List.map_append] at hnodup
  exact fun he => (List.nodup_cons.mp hnodup).1 (he ▸ List.mem_map.mpr ⟨other, ho, rfl⟩)

/-- The halves of two pairs are siblings in both directions. -/
theorem sibling_comm (kind : Kind) :
    ∀ rule ∈ kind.grammar, ∀ pair ∈ rule.shape.pair?,
      ∀ other ∈ kind.grammar, ∀ opposite ∈ other.shape.pair?,
        pair.sibling = other.name ↔ opposite.sibling = rule.name := by
  cases kind <;> decide

/-- Only the half of a pair is a sibling, and it is an optional field of its own. -/
theorem sibling_rule (kind : Kind) :
    ∀ rule ∈ kind.grammar, ∀ pair ∈ rule.shape.pair?,
      ∃ other ∈ kind.grammar, other.name = pair.sibling ∧ other.name ≠ rule.name ∧
        other.shape.pair?.isSome = true := by
  cases kind <;> decide

/-- In the places of a kind each field holds a content of the arity of its rule. -/
theorem arity_of_mem (h : fields.layout = kind.layout) (hr : rule ∈ kind.grammar)
    (hm : (rule.name, content) ∈ fields) : content.arity = rule.shape.arity := by
  have hplace : (rule.name, content.arity) ∈ kind.layout := h ▸ List.mem_map.mpr ⟨_, hm, rfl⟩
  rw [layout_eq] at hplace
  obtain ⟨other, ho, he⟩ := List.mem_map.mp hplace
  obtain ⟨hname, harity⟩ := Prod.mk.inj he
  rw [← harity, eq_of_name_eq hr ho hname]

theorem arity_of_lookup (h : fields.layout = kind.layout) (hr : rule ∈ kind.grammar)
    (hl : fields.lookup rule.name = some content) : content.arity = rule.shape.arity := by
  obtain ⟨before, after, hf, _⟩ := List.lookup_eq_some_iff.mp hl
  exact arity_of_mem h hr (by simp [hf])

theorem layout_assign (h : fields.layout = kind.layout) (hr : rule ∈ kind.grammar)
    (ha : content.arity = rule.shape.arity) :
    (Fields.assign rule.name content fields).layout = kind.layout := by
  rw [← h, Fields.layout, Fields.layout, Fields.assign, List.map_map]
  refine List.map_congr_left ?_
  rintro ⟨name, held⟩ hf
  by_cases hn : name = rule.name
  · subst hn
    simp [ha, arity_of_mem h hr hf]
  · simp [hn]

theorem Fits.layout (h : kind.Fits fields) : fields.layout = kind.layout := by
  have hd : (fields.map (·.1)).Nodup := h.names ▸ kind.grammar_names_nodup
  have hl : fields.length = kind.grammar.length := by simpa using congrArg List.length h.names
  rw [layout_eq]
  refine List.ext_getElem (by simp [Fields.layout, hl]) fun index hf hg => ?_
  have hi : index < kind.grammar.length := by simpa using hg
  have hname : (fields[index]).1 = (kind.grammar[index]).name := by
    have := congrArg (·[index]?) h.names
    simpa [hi, hl] using this
  obtain ⟨held, hlook, hallows⟩ := h.allowed _ (List.getElem_mem hi)
  have hmem : ((kind.grammar[index]).name, (fields[index]).2) ∈ fields :=
    hname ▸ List.getElem_mem (hl ▸ hi)
  have he : held = (fields[index]).2 :=
    Option.some.inj (hlook.symm.trans (lookup_of_mem_of_nodup hd hmem))
  simp [Fields.layout, hname, ← he, hallows.arity]

/-- The fields stand in the places of the kind, and the halves of pairs are present together. -/
structure Matched (kind : Kind) (fields : Fields) : Prop where
  layout : fields.layout = kind.layout
  paired : ∀ rule ∈ kind.grammar, ∀ pair ∈ rule.shape.pair?,
    (fields.lookup rule.name).any (·.isPresent) = (fields.lookup pair.sibling).any (·.isPresent)

theorem Matched.names (h : kind.Matched fields) :
    fields.map (·.1) = kind.grammar.map (·.name) :=
  map_fst_of_layout h.layout

theorem Fits.matched (h : kind.Fits fields) : kind.Matched fields :=
  ⟨h.layout, h.paired⟩

/-- Matched fields fit when each holds what its rule allows. -/
theorem Matched.fits (h : kind.Matched fields)
    (ha : ∀ rule ∈ kind.grammar, ∃ content,
      fields.lookup rule.name = some content ∧ rule.shape.Allows content) : kind.Fits fields :=
  ⟨h.names, ha, h.paired⟩

theorem releaseSibling_eq_self (hr : rule ∈ kind.grammar)
    (h : ∀ pair ∈ rule.shape.pair?, pair.fallback = none →
      (fields.lookup rule.name).any (·.isPresent) = true) :
    kind.releaseSibling rule.name fields = fields := by
  rw [releaseSibling, rule?_name hr, Option.bind_some]
  split
  next sibling hp => rw [if_pos (h _ hp rfl)]
  next => rfl

/-- A field that was emptied and cannot be invented takes its sibling with it. -/
theorem releaseSibling_eq_assign (hr : rule ∈ kind.grammar) {sibling : String}
    (hp : rule.shape.pair? = some ⟨sibling, none⟩)
    (hs : ∀ held, (sibling, held) ∈ fields → held.arity = .optional)
    (ha : (fields.lookup rule.name).any (·.isPresent) = false) :
    kind.releaseSibling rule.name fields = Fields.assign sibling (.optional none) fields := by
  rw [releaseSibling, rule?_name hr, Option.bind_some, hp]
  simp only [ha, Bool.false_eq_true, if_false, Fields.assign]
  refine List.map_congr_left ?_
  rintro ⟨name, held⟩ hm
  by_cases hname : name = sibling
  · subst hname
    have harity := hs held hm
    cases held with
    | optional => simp
    | one | list => cases harity
  · cases held <;> simp [hname]

/-- In matched fields there is no sibling to release. -/
theorem Matched.releaseSibling (h : kind.Matched fields) (hr : rule ∈ kind.grammar) :
    kind.releaseSibling rule.name fields = fields := by
  cases hp : rule.shape.pair? with
  | none => exact releaseSibling_eq_self hr (by simp [hp])
  | some pair =>
    obtain ⟨sibling, fallback⟩ := pair
    cases hown : (fields.lookup rule.name).any (·.isPresent) with
    | true => exact releaseSibling_eq_self hr fun _ _ _ => hown
    | false =>
      cases fallback with
      | some fallback =>
        refine releaseSibling_eq_self hr fun pair hpair hnone => ?_
        cases hp.symm.trans hpair
        cases hnone
      | none =>
        have hsibling := (h.paired rule hr _ hp).symm.trans hown
        obtain ⟨other, ho, rfl, _, hpair⟩ := kind.sibling_rule rule hr _ hp
        obtain ⟨held, hheld⟩ := exists_lookup h.names ho
        have hopt := Shape.arity_of_pair? hpair
        have habsent : held = .optional none :=
          Field.eq_none_of_absent ((arity_of_lookup h.layout ho hheld).trans hopt)
            (by simpa [hheld] using hsibling)
        have harity : ∀ held, (other.name, held) ∈ fields → held.arity = .optional :=
          fun held hm => (arity_of_mem h.layout ho hm).trans hopt
        rw [releaseSibling_eq_assign hr hp harity hown]
        exact Fields.assign_eq_self_of_lookup (h.names ▸ kind.grammar_names_nodup)
          (habsent ▸ hheld)

theorem lookup_of_getElem? (hn : fields.map (·.1) = kind.grammar.map (·.name)) {index : Nat}
    (h : (rule, index) ∈ kind.grammar.zipIdx) {name : String}
    (hf : fields[index]? = some (name, content)) :
    name = rule.name ∧ fields.lookup rule.name = some content := by
  have hi := congrArg (·[index]?) hn
  have hname : name = rule.name := by simpa [List.mem_zipIdx_iff_getElem?.mp h, hf] using hi
  subst hname
  exact ⟨rfl, lookup_of_mem_of_nodup (hn ▸ kind.grammar_names_nodup) (List.mem_of_getElem? hf)⟩

theorem getElem?_of_lookup (hn : fields.map (·.1) = kind.grammar.map (·.name)) {index : Nat}
    (h : (rule, index) ∈ kind.grammar.zipIdx) (hl : fields.lookup rule.name = some content) :
    fields[index]? = some (rule.name, content) := by
  have hi := congrArg (·[index]?) hn
  simp only [List.getElem?_map, List.mem_zipIdx_iff_getElem?.mp h, Option.map_some] at hi
  obtain ⟨⟨name, held⟩, hf, hname⟩ := Option.map_eq_some_iff.mp hi
  obtain rfl : name = rule.name := hname
  obtain ⟨-, hheld⟩ := lookup_of_getElem? hn h hf
  rw [hf, Option.some.inj (hheld.symm.trans hl)]

end Kind

namespace FieldRule

/-- The field of a rule is the absent half of a pair whose other half holds a node. -/
structure Lacks (rule : FieldRule) (fields : Fields) (pair : Pair) (beside : Node) : Prop where
  pair_eq : rule.shape.pair? = some pair
  absent : fields.lookup rule.name = some (.optional none)
  beside : (fields.lookup pair.sibling).bind (·.nodes.head?) = some beside

/-- The field of a rule is lacking, and something can stand in for it. -/
def isGap (rule : FieldRule) (fields : Fields) : Bool :=
  match rule.shape.pair?, fields.lookup rule.name with
  | some ⟨sibling, some _⟩, some (.optional none) => (fields.lookup sibling).any (·.isPresent)
  | _, _ => false

variable {kind : Kind} {fields : Fields} {rule other : FieldRule} {pair opposite : Pair}
  {beside : Node}

theorem exists_head_iff {content : Option (Field Node)} :
    (∃ node, content.bind (·.nodes.head?) = some node) ↔ content.any (·.isPresent) = true := by
  cases content with
  | none => simp
  | some content => cases h : content.nodes <;> simp [Field.isPresent, h]

theorem Lacks.isPresent (h : rule.Lacks fields pair beside) :
    (fields.lookup pair.sibling).any (·.isPresent) = true :=
  exists_head_iff.mp ⟨beside, h.beside⟩

theorem isGap_iff :
    rule.isGap fields = true ↔
      ∃ pair beside, rule.Lacks fields pair beside ∧ pair.fallback.isSome = true := by
  unfold isGap
  constructor
  · intro h
    split at h
    next sibling fallback hp ha =>
      obtain ⟨beside, hs⟩ := exists_head_iff.mpr h
      exact ⟨_, beside, ⟨hp, ha, hs⟩, rfl⟩
    next => cases h
  · rintro ⟨⟨sibling, fallback⟩, beside, h, hf⟩
    obtain ⟨fallback, rfl⟩ := Option.isSome_iff_exists.mp hf
    simp only [h.pair_eq, h.absent]
    exact h.isPresent

theorem isGap_eq_false_iff :
    rule.isGap fields = false ↔
      ∀ pair beside, rule.Lacks fields pair beside → pair.fallback = none := by
  rw [← Bool.not_eq_true, isGap_iff]
  simp

/-- There is no gap unless a fallback, an absent field and a sibling that is present come
together. -/
theorem isGap_eq_false (h : ∀ pair ∈ rule.shape.pair?, pair.fallback.isSome = true →
    (fields.lookup rule.name).any (·.isPresent) = false →
      (fields.lookup pair.sibling).any (·.isPresent) = false) : rule.isGap fields = false := by
  refine isGap_eq_false_iff.mpr fun pair beside hl => ?_
  by_contra hne
  have hsibling := h pair hl.pair_eq (Option.isSome_iff_ne_none.mpr hne) (by rw [hl.absent]; rfl)
  rw [hl.isPresent] at hsibling
  cases hsibling

/-- A field that is absent is no node beside which another one is lacking. -/
theorem Lacks.sibling_ne (h : rule.Lacks fields pair beside) (hr : rule ∈ kind.grammar)
    (ho : other ∈ kind.grammar) (hopp : other.shape.pair? = some opposite)
    (ha : fields.lookup other.name = some (.optional none)) : opposite.sibling ≠ rule.name := by
  intro hs
  have hsibling := (kind.sibling_comm other ho opposite hopp rule hr pair h.pair_eq).mp hs
  have hbeside := h.beside
  rw [hsibling, ha] at hbeside
  cases hbeside

/-- Filling one gap neither opens nor closes another. -/
theorem Lacks.assign_iff (h : rule.Lacks fields pair beside) (hr : rule ∈ kind.grammar)
    (ho : other ∈ kind.grammar) (hne : other.name ≠ rule.name) (stand node : Node) :
    other.Lacks (Fields.assign rule.name (.optional (some stand)) fields) opposite node ↔
      other.Lacks fields opposite node := by
  have hown : (Fields.assign rule.name (.optional (some stand)) fields).lookup other.name =
      fields.lookup other.name := Fields.lookup_assign_of_ne hne
  constructor
  · rintro ⟨hopp, ha, hb⟩
    rw [hown] at ha
    rw [Fields.lookup_assign_of_ne (h.sibling_ne hr ho hopp ha)] at hb
    exact ⟨hopp, ha, hb⟩
  · rintro ⟨hopp, ha, hb⟩
    refine ⟨hopp, hown.trans ha, ?_⟩
    rwa [Fields.lookup_assign_of_ne (h.sibling_ne hr ho hopp ha)]

theorem Lacks.isGap_assign (h : rule.Lacks fields pair beside) (hr : rule ∈ kind.grammar)
    (ho : other ∈ kind.grammar) (hne : other.name ≠ rule.name) (stand : Node) :
    other.isGap (Fields.assign rule.name (.optional (some stand)) fields) = other.isGap fields := by
  rw [Bool.eq_iff_iff, isGap_iff, isGap_iff]
  simp only [h.assign_iff hr ho hne]

section Step

variable {ε : Type} {index : Nat}

/-- A gap is filled by a token beside the node of the sibling. -/
theorem complete_gap (hn : fields.map (·.1) = kind.grammar.map (·.name))
    (hr : (rule, index) ∈ kind.grammar.zipIdx) (h : rule.Lacks fields pair beside)
    {fallback : Fallback} (hb : pair.fallback = some fallback) :
    (rule.complete index fields : Construct ε Fields) = do
      let stand ← Node.mark (fallback.symbolFor beside)
      return Fields.assign rule.name (.optional (some stand)) fields := by
  have hget := Kind.getElem?_of_lookup hn hr h.absent
  have hset : ∀ content, fields.set index (rule.name, content) =
      Fields.assign rule.name content fields := fun content =>
    Fields.set_eq_assign (hn ▸ kind.grammar_names_nodup) hget
  obtain ⟨sibling, _⟩ := pair
  obtain rfl := hb
  rw [complete, h.pair_eq, hget]
  simp only [h.beside, hset]

theorem complete_kept (hn : fields.map (·.1) = kind.grammar.map (·.name))
    (hr : (rule, index) ∈ kind.grammar.zipIdx) (h : rule.isGap fields = false) :
    (rule.complete index fields : Construct ε Fields) = pure fields := by
  unfold complete
  split
  next sibling fallback name hp hf =>
    obtain ⟨-, ha⟩ := Kind.lookup_of_getElem? hn hr hf
    split
    next beside hs =>
      cases isGap_eq_false_iff.mp h _ beside ⟨hp, ha, hs⟩
    next => rfl
  next => rfl

end Step

end FieldRule

namespace Kind

variable {kind : Kind} {fields : Fields} {rule : FieldRule}

section Completion

variable {ε : Type}

theorem foldlM_eq_pure {α β : Type} {step : β → α → Construct ε β} {start : β} {items : List α}
    (h : ∀ item ∈ items, step start item = pure start) : items.foldlM step start = pure start := by
  induction items with
  | nil => rfl
  | cons item rest ih =>
    rw [List.foldlM_cons, h item (by simp), pure_bind]
    exact ih fun other ho => h other (by simp [ho])

theorem completePairs_eq_pure (hn : fields.map (·.1) = kind.grammar.map (·.name))
    (h : ∀ rule ∈ kind.grammar, rule.isGap fields = false) :
    (kind.completePairs fields : Construct ε Fields) = pure fields :=
  foldlM_eq_pure fun (rule, _) he =>
    FieldRule.complete_kept hn he (h rule (List.fst_mem_of_mem_zipIdx he))

theorem Matched.completePairs (h : kind.Matched fields) :
    (kind.completePairs fields : Construct ε Fields) = pure fields :=
  completePairs_eq_pure h.names fun rule hr =>
    FieldRule.isGap_eq_false fun pair hp _ ha => h.paired rule hr pair hp ▸ ha

/-- When only one field is a gap, it is filled and nothing else is completed. -/
theorem completePairs_single (hn : fields.map (·.1) = kind.grammar.map (·.name))
    (hr : rule ∈ kind.grammar) {pair : Pair} {beside : Node} (hl : rule.Lacks fields pair beside)
    {fallback : Fallback} (hb : pair.fallback = some fallback)
    (ho : ∀ other ∈ kind.grammar, other.name ≠ rule.name → other.isGap fields = false) :
    (kind.completePairs fields : Construct ε Fields) = do
      let stand ← Node.mark (fallback.symbolFor beside)
      return Fields.assign rule.name (.optional (some stand)) fields := by
  obtain ⟨before, after, hg⟩ := List.append_of_mem hr
  have hzip : kind.grammar.zipIdx =
      before.zipIdx ++ (rule, before.length) :: after.zipIdx (before.length + 1) := by
    simp [hg, List.zipIdx_append]
  have hbefore : ∀ entry ∈ before.zipIdx,
      (entry.1.complete entry.2 fields : Construct ε Fields) = pure fields := by
    intro entry he
    have hm : entry ∈ kind.grammar.zipIdx := hzip ▸ List.mem_append_left _ he
    have hside := List.mem_append_left after (List.fst_mem_of_mem_zipIdx he)
    exact FieldRule.complete_kept hn hm
      (ho _ (List.fst_mem_of_mem_zipIdx hm) (name_ne_of_split hg hside))
  have hafter : ∀ stand, ∀ entry ∈ after.zipIdx (before.length + 1),
      (entry.1.complete entry.2 (Fields.assign rule.name (.optional (some stand)) fields) :
        Construct ε Fields) = pure (Fields.assign rule.name (.optional (some stand)) fields) := by
    intro stand entry he
    have hm : entry ∈ kind.grammar.zipIdx := by simp [hzip, he]
    have hother : entry.1 ∈ kind.grammar := List.fst_mem_of_mem_zipIdx hm
    have hside := List.mem_append_right before (List.fst_mem_of_mem_zipIdx he)
    have hname := name_ne_of_split hg hside
    refine FieldRule.complete_kept (by simp [hn]) hm ?_
    rw [hl.isGap_assign hr hother hname, ho _ hother hname]
  rw [Kind.completePairs, hzip, List.foldlM_append, foldlM_eq_pure hbefore, pure_bind,
    List.foldlM_cons]
  simp only
  rw [FieldRule.complete_gap hn (by simp [hzip]) hl hb, bind_assoc]
  refine bind_congr fun stand => ?_
  rw [pure_bind, foldlM_eq_pure (hafter stand)]

/-- A field that was emptied is filled again when its sibling is there and something can stand in
for it; nothing else is completed. -/
theorem Matched.completePairs_emptied (h : kind.Matched fields) (hr : rule ∈ kind.grammar)
    {sibling : String} {fallback : Fallback} (hp : rule.shape.pair? = some ⟨sibling, some fallback⟩)
    {present : Node} (hs : fields.lookup sibling = some (.optional (some present))) :
    (kind.completePairs (Fields.assign rule.name (.optional none) fields) : Construct ε Fields) =
      do
        let stand ← Node.mark (fallback.symbolFor present)
        return Fields.assign rule.name (.optional (some stand)) fields := by
  obtain ⟨half, _, rfl, hne, _⟩ := kind.sibling_rule rule hr _ hp
  obtain ⟨old, hold⟩ := exists_lookup h.names hr
  have hbeside : ((Fields.assign rule.name (.optional none) fields).lookup half.name).bind
      (·.nodes.head?) = some present := by
    rw [Fields.lookup_assign_of_ne hne, hs]
    rfl
  have hlacks : rule.Lacks (Fields.assign rule.name (.optional none) fields)
      ⟨half.name, some fallback⟩ present := ⟨hp, Fields.lookup_assign_self hold, hbeside⟩
  have hothers : ∀ other ∈ kind.grammar, other.name ≠ rule.name →
      other.isGap (Fields.assign rule.name (.optional none) fields) = false := by
    intro other ho hname
    refine FieldRule.isGap_eq_false fun pair hpair _ ha => ?_
    rw [Fields.lookup_assign_of_ne hname, h.paired other ho pair hpair] at ha
    by_cases hs : pair.sibling = rule.name
    · rw [hs, Fields.lookup_assign_self hold]
      rfl
    · rwa [Fields.lookup_assign_of_ne hs]
  rw [completePairs_single (by simp [h.names]) hr hlacks rfl hothers]
  simp only [Fields.assign_assign]

end Completion

end Kind

end ProgramTree
