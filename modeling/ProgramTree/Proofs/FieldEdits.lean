import ProgramTree.Proofs.EditedContents
import ProgramTree.Proofs.Grafts
import ProgramTree.Proofs.Pairs

namespace ProgramTree

theorem forM_append_eq_error {ε α : Type} {f : α → Except ε Unit} {before after : List α} {item : α}
    {error : ε} (h : ∀ other ∈ before, f other = .ok ()) (he : f item = .error error) :
    (before ++ item :: after).forM f = .error error := by
  induction before with
  | nil =>
    rw [List.nil_append, List.forM_eq_forM, List.forM_cons, he]
    rfl
  | cons other rest ih =>
    rw [List.cons_append, List.forM_eq_forM, List.forM_cons, h other List.mem_cons_self]
    exact ih fun other ho => h other (List.mem_cons_of_mem _ ho)

/-- Why a rule does not allow a content, whatever the other fields hold. The first node that is not
permitted counts. -/
inductive FieldRule.Refuses (rule : FieldRule) (kind : Kind) (content : Field Node) :
    ShapeError → Prop
  | notPermitted {before after : List Node} {found : Node}
      (hn : content.nodes = before ++ found :: after)
      (hb : ∀ node ∈ before, rule.shape.permits.any (·.admits node) = true)
      (hf : rule.shape.permits.any (·.admits found) = false) :
      Refuses rule kind content
        (.notPermitted kind rule.name rule.shape.permits (.ofNode found))
  | emptyList (hs : rule.shape.nonEmpty = true) (he : content.nodes = []) :
      Refuses rule kind content (.emptyList kind rule.name)

namespace FieldRule

variable {rule : FieldRule} {content : Field Node} {error : ShapeError}

theorem allows_or_refuses (kind : Kind) (ha : content.arity = rule.shape.arity) :
    rule.shape.Allows content ∨ ∃ error, rule.Refuses kind content error := by
  cases hf : content.nodes.find? fun node => !rule.shape.permits.any (·.admits node) with
  | some found =>
    obtain ⟨hfound, before, after, hn, hb⟩ := List.find?_eq_some_iff_append.mp hf
    exact .inr ⟨_, .notPermitted hn (fun node hm => by simpa using hb node hm)
      (by simpa using hfound)⟩
  | none =>
    by_cases he : rule.shape.nonEmpty = true ∧ content.nodes = []
    · exact .inr ⟨_, .emptyList he.1 he.2⟩
    · refine .inl ⟨ha, fun node hn => ?_, fun hs hnil => he ⟨hs, hnil⟩⟩
      have hadmitted := List.find?_eq_none.mp hf node hn
      exact List.any_eq_true.mp (by simpa using hadmitted)

theorem Refuses.not_allows {kind : Kind} (h : rule.Refuses kind content error) :
    ¬ rule.shape.Allows content := by
  intro ha
  cases h with
  | @notPermitted before after found hn hb hf =>
    have hadmitted := List.any_eq_true.mpr (ha.admitted found (by simp [hn]))
    rw [hf] at hadmitted
    cases hadmitted
  | emptyList hs he => exact ha.nonEmpty hs he

/-- What a rule refuses is what its check reports. -/
theorem Refuses.check_eq {kind : Kind} (h : rule.Refuses kind content error)
    (ha : content.arity = rule.shape.arity) (fields : Fields) :
    rule.check kind fields content = .error error := by
  obtain ⟨name, shape⟩ := rule
  cases h with
  | @notPermitted before after found hn hb hf =>
    have hfound : FieldRule.allow ⟨name, shape⟩ kind found =
        .error (.notPermitted kind name shape.permits (.ofNode found)) := by
      simp [allow, hf]
    have hbefore : ∀ node ∈ before, FieldRule.allow ⟨name, shape⟩ kind node = .ok () := by
      intro node hm
      rw [allow, if_pos (hb node hm)]
    cases content with
    | one node =>
      obtain ⟨rfl, rfl⟩ : before = [] ∧ node = found := by
        cases before <;> simp_all [Field.nodes]
      cases shape with
      | one => exact hfound
      | optional | list => cases ha
    | optional present =>
      obtain ⟨rfl, rfl⟩ : before = [] ∧ present = some found := by
        cases present <;> cases before <;> simp_all [Field.nodes]
      cases shape with
      | optional => exact hfound
      | one | list => cases ha
    | list nodes =>
      obtain rfl : nodes = before ++ found :: after := hn
      cases shape with
      | list nonEmpty permits =>
        have hne : (before ++ found :: after).isEmpty = false := by simp
        simp only [check, hne, Bool.and_false, Bool.false_eq_true, if_false]
        exact forM_append_eq_error hbefore hfound
      | one | optional => cases ha
  | emptyList hs he =>
    cases shape with
    | list nonEmpty permits =>
      cases content with
      | list nodes =>
        obtain rfl : nodes = [] := he
        obtain rfl : nonEmpty = true := hs
        rfl
      | one | optional => cases ha
    | one | optional => cases hs

end FieldRule

theorem Field.arity_put {α : Type} (index : Option Nat) (new : α) (content : Field α) :
    (content.put index new).arity = content.arity := by
  cases content with
  | one | optional => rfl
  | list => cases index <;> rfl

theorem Fields.assign_put {fields : Fields} {content : Field Node} {step : Step}
    (hn : (fields.map (·.1)).Nodup) (h : fields.lookup step.field = some content) (new : Node) :
    assign step.field (content.put step.index new) fields = fields.put step new := by
  refine List.map_congr_left ?_
  rintro ⟨name, held⟩ hm
  by_cases he : name = step.field
  · subst he
    rw [lookup_of_mem_of_nodup hn hm] at h
    cases h
    simp
  · simp [he]

namespace Kind

variable {kind : Kind} {fields : Fields} {rule : FieldRule} {content old : Field Node}

/-- The fault of a rule is reported when the rules before it are met. -/
theorem check_eq_error_of_first (hn : fields.map (·.1) = kind.grammar.map (·.name))
    {before after : List FieldRule} (hg : kind.grammar = before ++ rule :: after)
    {error : ShapeError} (hb : ∀ other ∈ before, ∀ held, fields.lookup other.name = some held →
      other.check kind fields held = .ok ())
    (hl : fields.lookup rule.name = some content)
    (he : rule.check kind fields content = .error error) : kind.check fields = .error error := by
  have hlen : fields.length = kind.grammar.length := by simpa using congrArg List.length hn
  have hsplit := hn
  rw [hg, List.map_append, List.map_cons] at hsplit
  obtain ⟨first, rest, rfl, hfirst, hrest⟩ := List.map_eq_append_iff.mp hsplit
  obtain ⟨⟨name, held⟩, last, rfl, hname, _⟩ := List.map_eq_cons_iff.mp hrest
  have hown : name = rule.name := hname
  subst hown
  have hm : (rule.name, held) ∈ first ++ (rule.name, held) :: last := by simp
  have hheld := lookup_of_mem_of_nodup (hn ▸ kind.grammar_names_nodup) hm
  cases Option.some.inj (hl.symm.trans hheld)
  have hfront : before.length = first.length := by simpa using (congrArg List.length hfirst).symm
  have hzip : kind.grammar.zip (first ++ (rule.name, content) :: last) =
      before.zip first ++ (rule, rule.name, content) :: after.zip last := by
    rw [hg, List.zip_append hfront, List.zip_cons_cons]
  rw [check, if_pos hlen, hzip]
  refine forM_append_eq_error ?_ he
  rintro ⟨other, key, content⟩ ho
  have hz : (other, key, content) ∈ kind.grammar.zip (first ++ (rule.name, _) :: last) :=
    hzip ▸ List.mem_append_left _ ho
  exact hb other (List.of_mem_zip ho).1 content ((mem_zip_iff hn).mp ⟨key, hz⟩).2

/-- An assignment that keeps a paired field as present as it was leaves all pairs as they are. -/
theorem any_isPresent_assign (hr : rule ∈ kind.grammar)
    (hold : fields.lookup rule.name = some old)
    (hp : rule.shape.pair?.isSome = true → content.isPresent = old.isPresent)
    {name : String} {other : FieldRule} (ho : other ∈ kind.grammar) (hname : other.name = name)
    (hpair : other.shape.pair?.isSome = true) :
    ((Fields.assign rule.name content fields).lookup name).any (·.isPresent) =
      (fields.lookup name).any (·.isPresent) := by
  subst hname
  by_cases he : other.name = rule.name
  · rw [eq_of_name_eq hr ho he] at hpair ⊢
    exact Fields.any_isPresent_assign hold (hp hpair) _
  · rw [Fields.lookup_assign_of_ne he]

theorem Matched.assign (h : kind.Matched fields) (hr : rule ∈ kind.grammar)
    (hold : fields.lookup rule.name = some old) (ha : content.arity = rule.shape.arity)
    (hp : rule.shape.pair?.isSome = true → content.isPresent = old.isPresent) :
    kind.Matched (Fields.assign rule.name content fields) := by
  refine ⟨layout_assign h.layout hr ha, fun other ho pair hpair => ?_⟩
  obtain ⟨sibling, hs, hname, _, hspair⟩ := kind.sibling_rule other ho pair hpair
  rw [any_isPresent_assign hr hold hp ho rfl (Option.isSome_of_mem hpair),
    any_isPresent_assign hr hold hp hs hname hspair, h.paired other ho pair hpair]

/-- The check of matched fields fails as one rule does, when all the others are met. -/
theorem Matched.check_eq_error (h : kind.Matched fields) (hr : rule ∈ kind.grammar)
    (ha : ∀ other ∈ kind.grammar, other.name ≠ rule.name →
      ∃ held, fields.lookup other.name = some held ∧ other.shape.Allows held)
    (hl : fields.lookup rule.name = some content) {error : ShapeError}
    (he : rule.check kind fields content = .error error) : kind.check fields = .error error := by
  obtain ⟨before, after, hg⟩ := List.append_of_mem hr
  refine check_eq_error_of_first h.names hg (fun other ho held hheld => ?_) hl he
  have hother : other ∈ kind.grammar := by simp [hg, ho]
  obtain ⟨allowed, hallowed, hown⟩ := ha other hother (name_ne_of_split hg (List.mem_append_left _ ho))
  cases Option.some.inj (hheld.symm.trans hallowed)
  refine (FieldRule.check_eq_ok_iff ..).mpr ⟨hown, fun pair hpair habsent => ?_⟩
  rw [← h.paired other hother pair hpair, hheld]
  exact habsent

namespace Fits

theorem allowed_assign (h : kind.Fits fields) {other : FieldRule} (ho : other ∈ kind.grammar)
    (hne : other.name ≠ rule.name) : ∃ held,
      (Fields.assign rule.name content fields).lookup other.name = some held ∧
        other.shape.Allows held := by
  rw [Fields.lookup_assign_of_ne hne]
  exact h.allowed other ho

theorem assign (h : kind.Fits fields) (hr : rule ∈ kind.grammar)
    (hold : fields.lookup rule.name = some old)
    (hp : rule.shape.pair?.isSome = true → content.isPresent = old.isPresent)
    (ha : rule.shape.Allows content) : kind.Fits (Fields.assign rule.name content fields) := by
  refine (h.matched.assign hr hold ha.arity hp).fits fun other ho => ?_
  by_cases he : other.name = rule.name
  · rw [eq_of_name_eq hr ho he]
    exact ⟨content, Fields.lookup_assign_self hold, ha⟩
  · exact h.allowed_assign ho he

/-- The check of an assignment fails as the rule of the assigned field does. -/
theorem check_assign (h : kind.Fits fields) (hr : rule ∈ kind.grammar)
    (hold : fields.lookup rule.name = some old) (ha : content.arity = rule.shape.arity)
    (hp : rule.shape.pair?.isSome = true → content.isPresent = old.isPresent) {error : ShapeError}
    (he : rule.check kind (Fields.assign rule.name content fields) content = .error error) :
    kind.check (Fields.assign rule.name content fields) = .error error :=
  (h.matched.assign hr hold ha hp).check_eq_error hr (fun _ ho hne => h.allowed_assign ho hne)
    (Fields.lookup_assign_self hold) he

end Fits

theorem assemble_ok (h : kind.Fits fields) (next : Nat) :
    kind.assemble fields next = .ok (.tree next kind fields) (next + 1) := by
  have ha : kind.arrange fields = .ok fields := arrange_eq_ok_iff.mpr ⟨h.layout, rfl⟩
  have hc : kind.check fields = .ok () := (fits_iff.mp h).2
  rw [assemble, ha]
  change (do
    MonadExcept.ofExcept ((kind.check fields).mapError .shape)
    return .tree (← freshId) kind fields : Construct EditError Node) next = _
  rw [hc]
  rfl

theorem assemble_error (hl : fields.layout = kind.layout) {error : ShapeError}
    (hc : kind.check fields = .error error) (next : Nat) :
    kind.assemble fields next = .error (.shape error) next := by
  have ha : kind.arrange fields = .ok fields := arrange_eq_ok_iff.mpr ⟨hl, rfl⟩
  rw [assemble, ha]
  change (do
    MonadExcept.ofExcept ((kind.check fields).mapError .shape)
    return .tree (← freshId) kind fields : Construct EditError Node) next = _
  rw [hc]
  rfl

end Kind

/-- The field and the rule of the place that a step leads to. -/
structure Node.Holding (node : Node) (step : Step) (child : Node) (rule : FieldRule)
    (content : Field Node) : Prop where
  rule_mem : rule ∈ node.kind.grammar
  name : rule.name = step.field
  field : node.field? rule.name = some content
  place : content.at? step.index = some child
  allows : rule.shape.Allows content

/-- No element before a list element is the same node. -/
def Node.Foremost (node : Node) (step : Step) (child : Node) : Prop :=
  ∀ nodes index, node.field? step.field = some (.list nodes) → step.index = some index →
    nodes.findIdx? (·.same child) = some index

namespace Node

variable {parent child old new : Node} {step : Step} {rule : FieldRule} {content : Field Node}

theorem WellFormed.exists_holding (h : parent.WellFormed) (hc : parent.childAt? step = some child) :
    ∃ rule content, parent.Holding step child rule content := by
  rw [childAt?_eq] at hc
  obtain ⟨content, hf, hat⟩ := Option.bind_eq_some_iff.mp hc
  obtain ⟨before, after, hfields, _⟩ := List.lookup_eq_some_iff.mp hf
  have hm : step.field ∈ parent.fields.map (·.1) := by simp [hfields]
  rw [h.fits.names] at hm
  obtain ⟨rule, hr, hname⟩ := List.mem_map.mp hm
  obtain ⟨allowed, hallowed, ha⟩ := h.fits.allowed rule hr
  have he : allowed = content := Option.some.inj ((hname ▸ hallowed).symm.trans hf)
  exact ⟨rule, content, hr, hname, hname ▸ hf, hat, he ▸ ha⟩

namespace Holding

theorem rule?_eq (h : parent.Holding step child rule content) :
    parent.kind.rule? step.field = some rule :=
  h.name ▸ Kind.rule?_name h.rule_mem

theorem mem_nodes (h : parent.Holding step child rule content) : child ∈ content.nodes :=
  Field.mem_nodes_of_at? h.place

theorem isPresent (h : parent.Holding step child rule content) : content.isPresent = true := by
  have hne := List.ne_nil_of_mem h.mem_nodes
  simpa [Field.isPresent] using hne

theorem allows_put (h : parent.Holding step child rule content)
    (ha : ∃ permit ∈ rule.shape.permits, permit.admits new = true) :
    rule.shape.Allows (content.put step.index new) := by
  refine ⟨?_, fun node hn => ?_, fun _ he => ?_⟩
  · rw [Field.arity_put, h.allows.arity]
  · rcases List.mem_cons.mp (Field.nodes_put_subset hn) with rfl | hn
    · exact ha
    · exact h.allows.admitted node hn
  · have hp : (content.put step.index new).isPresent = content.isPresent := Field.isPresent_put
    rw [h.isPresent, Field.isPresent, he] at hp
    cases hp

theorem edit_some (h : parent.Holding step child rule content) (hf : parent.Foremost step child)
    (hs : old.same child = true) (new : Node) :
    content.edit parent.kind rule.name (.child (some old) (some new)) =
      .ok (content.put step.index new) := by
  have hid : old.id = child.id := by simpa [same] using hs
  cases content with
  | one node =>
    obtain ⟨hi, rfl⟩ := Field.at?_one.mp h.place
    simp [Field.edit, hi, hs, Field.put]
  | optional node =>
    obtain ⟨hi, rfl⟩ := Field.at?_optional.mp h.place
    simp [Field.edit, hi, hs, sameOption, Field.put]
  | list nodes =>
    obtain ⟨index, hi, hget⟩ := Field.at?_list.mp h.place
    have hlt : index < nodes.length := (List.getElem?_eq_some_iff.mp hget).1
    have hfind : nodes.findIdx? (·.same old) = some index := by
      simpa [same, hid] using hf nodes index (h.name ▸ h.field) hi
    simp [Field.edit, hi, hfind, Field.put, List.set_eq_take_append_cons_drop, hlt]

/-- A node that is not permitted is what its field is refused for. -/
theorem refuses_put (h : parent.Holding step child rule content)
    (hn : rule.shape.permits.any (·.admits new) = false) :
    rule.Refuses parent.kind (content.put step.index new)
      (.notPermitted parent.kind rule.name rule.shape.permits (.ofNode new)) := by
  have hplace := h.place
  have hadmitted := h.allows.admitted
  cases content with
  | one node =>
    obtain ⟨hi, _⟩ := Field.at?_one.mp hplace
    have hnodes : ((Field.one node).put step.index new).nodes = [] ++ new :: [] := by
      rw [hi]
      rfl
    exact .notPermitted hnodes (by simp) hn
  | optional node =>
    obtain ⟨hi, rfl⟩ := Field.at?_optional.mp hplace
    have hnodes : ((Field.optional (some child)).put step.index new).nodes = [] ++ new :: [] := by
      rw [hi]
      rfl
    exact .notPermitted hnodes (by simp) hn
  | list nodes =>
    obtain ⟨index, hi, hget⟩ := Field.at?_list.mp hplace
    have hlt : index < nodes.length := (List.getElem?_eq_some_iff.mp hget).1
    have hnodes : ((Field.list nodes).put step.index new).nodes =
        nodes.take index ++ new :: nodes.drop (index + 1) := by
      simp [hi, Field.put, Field.nodes, List.set_eq_take_append_cons_drop, hlt]
    refine .notPermitted hnodes (fun node hm => ?_) hn
    exact List.any_eq_true.mpr (hadmitted node (List.mem_of_mem_take hm))

end Holding

theorem replace_eq {node : Node} {name : String} {edit : Edit} {edited : Field Node}
    (hf : node.field? name = some content)
    (he : content.edit node.kind name edit = .ok edited) :
    node.replace name edit =
      node.kind.completePairs
        (node.kind.releaseSibling name (Fields.assign name edited node.fields)) >>=
      node.kind.assemble := by
  unfold replace
  rw [hf]
  simp only [he]
  rfl

theorem replace_unknown {node : Node} {name : String} (hf : node.field? name = none) (edit : Edit)
    (next : Nat) : node.replace name edit next = .error (.unknownField node.kind name) next := by
  unfold replace
  rw [hf]
  rfl

theorem replace_eq_error {node : Node} {name : String} {edit : Edit} {error : EditError}
    (hf : node.field? name = some content)
    (he : content.edit node.kind name edit = .error error) (next : Nat) :
    node.replace name edit next = .error error next := by
  unfold replace
  rw [hf]
  simp only [he]
  rfl

/-- An edit that keeps a half of a pair as present as it was releases and completes nothing. -/
theorem WellFormed.replace_kept (h : parent.WellFormed) (hr : rule ∈ parent.kind.grammar)
    (hf : parent.field? rule.name = some content) {edit : Edit} {edited : Field Node}
    (he : content.edit parent.kind rule.name edit = .ok edited)
    (hp : rule.shape.pair?.isSome = true → edited.isPresent = content.isPresent) :
    parent.replace rule.name edit =
      parent.kind.assemble (Fields.assign rule.name edited parent.fields) := by
  have harity : edited.arity = rule.shape.arity :=
    (Edit.edit_eq_ok_iff.mp he).arity_eq.trans (Kind.arity_of_lookup h.fits.layout hr hf)
  have hmatched := h.fits.matched.assign hr hf harity hp
  rw [replace_eq hf he, hmatched.releaseSibling hr, hmatched.completePairs, pure_bind]

/-- A child that is not removed takes no sibling with it and completes nothing. -/
theorem WellFormed.replace_present (h : parent.WellFormed)
    (hh : parent.Holding step child rule content) {edit : Edit} {edited : Field Node}
    (he : content.edit parent.kind rule.name edit = .ok edited)
    (hp : rule.shape.pair?.isSome = true → edited.isPresent = true) :
    parent.replace rule.name edit =
      parent.kind.assemble (Fields.assign rule.name edited parent.fields) :=
  h.replace_kept hh.rule_mem hh.field he fun hs => (hp hs).trans hh.isPresent.symm

theorem Holding.assign_put (hh : parent.Holding step child rule content) (h : parent.WellFormed)
    (new : Node) : Fields.assign rule.name (content.put step.index new) parent.fields =
      parent.fields.put step new := by
  have hfield : parent.fields.lookup step.field = some content := hh.name ▸ hh.field
  rw [hh.name, Fields.assign_put h.names_nodup hfield]

theorem WellFormed.fits_put (h : parent.WellFormed) (hh : parent.Holding step child rule content)
    (ha : ∃ permit ∈ rule.shape.permits, permit.admits new = true) :
    parent.kind.Fits (parent.fields.put step new) :=
  hh.assign_put h new ▸
    h.fits.assign hh.rule_mem hh.field (fun _ => Field.isPresent_put) (hh.allows_put ha)

/-- Replacing a child succeeds exactly when its place permits the new node, and makes one node. -/
theorem WellFormed.replace_child (h : parent.WellFormed)
    (hh : parent.Holding step child rule content) (hf : parent.Foremost step child)
    (hs : old.same child = true) (new : Node) (next : Nat) :
    parent.replace step.field (.child (some old) (some new)) next =
      if rule.shape.permits.any (·.admits new) then
        .ok (parent.put step new next) (next + 1)
      else
        .error (.shape (.notPermitted parent.kind step.field rule.shape.permits (.ofNode new)))
          next := by
  have hpresent : (content.put step.index new).isPresent = true :=
    Field.isPresent_put.trans hh.isPresent
  have hreplace := h.replace_present hh (hh.edit_some hf hs new) fun _ => hpresent
  rw [← hh.name, hreplace]
  split
  next ha =>
    rw [hh.assign_put h, Kind.assemble_ok (h.fits_put hh (List.any_eq_true.mp ha))]
    rfl
  next hn =>
    have harity : (content.put step.index new).arity = rule.shape.arity := by
      rw [Field.arity_put, hh.allows.arity]
    have hrefused := hh.refuses_put (Bool.not_eq_true _ ▸ hn)
    have hcheck := h.fits.check_assign hh.rule_mem hh.field harity (fun _ => Field.isPresent_put)
      (hrefused.check_eq harity _)
    exact Kind.assemble_error (Kind.layout_assign h.fits.layout hh.rule_mem harity) hcheck next

/-- A child put where it stands already changes nothing. -/
theorem WellFormed.put_self (h : parent.WellFormed) (hc : parent.childAt? step = some child) :
    parent.put step child parent.id = parent := by
  obtain ⟨rule, content, hh⟩ := h.exists_holding hc
  have hfields := hh.assign_put h child
  rw [Field.put_self hh.place, Fields.assign_eq_self_of_lookup h.names_nodup hh.field] at hfields
  rw [Node.put, ← hfields]
  cases parent with
  | token => cases hh.rule_mem
  | tree => rfl

/-- A well-formed node stays so with another child that is permitted. -/
theorem WellFormed.put (h : parent.WellFormed) (hh : parent.Holding step child rule content)
    (ha : ∃ permit ∈ rule.shape.permits, permit.admits new = true) (hn : new.WellFormed)
    (id : Nat) : (parent.put step new id).WellFormed := by
  have hk : parent.kind ≠ .token := by
    intro hk
    have hr := hh.rule_mem
    rw [hk] at hr
    cases hr
  refine .tree hk (h.fits_put hh ha) fun held hheld => ?_
  rcases List.mem_cons.mp (children_put_subset hheld) with rfl | hheld
  · exact hn
  · exact h.of_mem_children hheld

end Node

end ProgramTree
