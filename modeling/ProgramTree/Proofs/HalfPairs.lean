import ProgramTree.Proofs.FieldOutcomes
import ProgramTree.Proofs.ShapeFaults

namespace ProgramTree

namespace FieldRule

/-- The gaps in the fields of some rules are filled, in the order of the rules, by tokens that are
numbered one after the other; all other fields are kept. -/
structure Fill (rules : List FieldRule) (fields : Fields) (next : Nat) (completed : Fields)
    (after : Nat) : Prop where
  names : completed.map (·.1) = fields.map (·.1)
  kept : ∀ name, (∀ rule ∈ rules, rule.isGap fields = true → rule.name ≠ name) →
    completed.lookup name = fields.lookup name
  filled : ∀ (index : Nat) (rule : FieldRule), (rules.filter (·.isGap fields))[index]? = some rule →
    ∃ pair beside stand, rule.Lacks fields pair beside ∧
      rule.StandsFor beside (next + index) stand ∧
        completed.lookup rule.name = some (.optional (some stand))
  drawn : after = next + (rules.filter (·.isGap fields)).length

variable {kind : Kind} {fields completed : Fields} {rule : FieldRule} {rest : List FieldRule}
  {pair : Pair} {beside stand : Node} {next after : Nat}

namespace Fill

theorem nil : Fill [] fields next fields next :=
  ⟨rfl, fun _ _ => rfl, by simp, rfl⟩

theorem skip (h : rule.isGap fields = false) (hf : Fill rest fields next completed after) :
    Fill (rule :: rest) fields next completed after := by
  have hfilter : (rule :: rest).filter (·.isGap fields) = rest.filter (·.isGap fields) :=
    List.filter_cons_of_neg (by simp [h])
  refine ⟨hf.names, fun name hk => hf.kept name fun other ho => ?_, ?_, ?_⟩
  · exact hk other (List.mem_cons_of_mem rule ho)
  · rw [hfilter]
    exact hf.filled
  · rw [hfilter]
    exact hf.drawn

theorem put (h : rule.Lacks fields pair beside) (hst : rule.StandsFor beside next stand)
    (hr : rule ∈ kind.grammar) (hrest : ∀ other ∈ rest, other ∈ kind.grammar)
    (hne : ∀ other ∈ rest, other.name ≠ rule.name)
    (hf : Fill rest (Fields.assign rule.name (.optional (some stand)) fields) (next + 1) completed
      after) : Fill (rule :: rest) fields next completed after := by
  have hsame : ∀ other ∈ rest,
      other.isGap (Fields.assign rule.name (.optional (some stand)) fields) = other.isGap fields :=
    fun other ho => h.isGap_assign hr (hrest other ho) (hne other ho) stand
  obtain ⟨fallback, hb⟩ := hst.exists_fallback h.pair_eq
  have hgap : rule.isGap fields = true := isGap_iff.mpr ⟨pair, beside, h, by simp [hb]⟩
  have hfilter : (rule :: rest).filter (·.isGap fields) = rule ::
      rest.filter (·.isGap (Fields.assign rule.name (.optional (some stand)) fields)) := by
    rw [List.filter_congr hsame]
    exact List.filter_cons_of_pos hgap
  refine ⟨hf.names.trans Fields.map_fst_assign, fun name hk => ?_, fun index other ho => ?_, ?_⟩
  · have hname : name ≠ rule.name := (hk rule List.mem_cons_self hgap).symm
    rw [hf.kept name fun other ho hg =>
        hk other (List.mem_cons_of_mem rule ho) (hsame other ho ▸ hg),
      Fields.lookup_assign_of_ne hname]
  · rw [hfilter] at ho
    cases index with
    | zero =>
      cases ho
      refine ⟨pair, beside, stand, h, hst, ?_⟩
      rw [hf.kept rule.name fun other ho _ => hne other ho, Fields.lookup_assign_self h.absent]
    | succ index =>
      obtain ⟨opposite, node, token, hl, ht, hlook⟩ := hf.filled index other ho
      have hm : other ∈ rest := List.mem_of_mem_filter (List.mem_of_getElem? ho)
      refine ⟨opposite, node, token, ?_, ?_, hlook⟩
      · exact (h.assign_iff hr (hrest other hm) (hne other hm) stand node).mp hl
      · rwa [Nat.add_assoc, Nat.add_comm 1 index] at ht
  · rw [hf.drawn, hfilter, List.length_cons, Nat.add_assoc, Nat.add_comm 1]

end Fill

/-- Completing the fields of some rules of a grammar fills the gaps among them. -/
theorem foldlM_complete {ε : Type} {rules : List (FieldRule × Nat)}
    (hm : ∀ entry ∈ rules, entry ∈ kind.grammar.zipIdx)
    (hd : ((rules.map (·.1)).map (·.name)).Nodup)
    (hn : fields.map (·.1) = kind.grammar.map (·.name)) (next : Nat) :
    ∃ completed after,
      (rules.foldlM (fun current (rule, index) => rule.complete index current) fields :
        Construct ε Fields) next = .ok completed after ∧
      Fill (rules.map (·.1)) fields next completed after := by
  induction rules generalizing fields next with
  | nil => exact ⟨fields, next, rfl, .nil⟩
  | cons entry rest ih =>
    obtain ⟨rule, index⟩ := entry
    obtain ⟨hentry, hrest⟩ := List.forall_mem_cons.mp hm
    obtain ⟨hfresh, hd⟩ := List.nodup_cons.mp hd
    simp only [List.foldlM_cons]
    cases hg : rule.isGap fields with
    | false =>
      obtain ⟨completed, after, hok, hf⟩ := ih hrest hd hn next
      refine ⟨completed, after, ?_, hf.skip hg⟩
      rw [complete_kept hn hentry hg, pure_bind, hok]
    | true =>
      obtain ⟨pair, beside, hl, hsome⟩ := isGap_iff.mp hg
      obtain ⟨fallback, hb⟩ := Option.isSome_iff_exists.mp hsome
      have hr : rule ∈ kind.grammar := List.fst_mem_of_mem_zipIdx hentry
      obtain ⟨stand, hst⟩ := exists_standsFor hr hl.pair_eq hb beside next
      obtain ⟨completed, after, hok, hf⟩ := ih hrest hd (Fields.map_fst_assign.trans hn) (next + 1)
      refine ⟨completed, after, ?_, .put hl hst hr ?_ ?_ hf⟩
      · rw [complete_gap hn hentry hl hb, bind_assoc,
          Construct.bind_ok (hst.mark_eq hl.pair_eq hb), pure_bind]
        exact hok
      · exact List.forall_mem_map.mpr fun entry he => List.fst_mem_of_mem_zipIdx (hrest entry he)
      · exact fun other ho hname => hfresh (List.mem_map.mpr ⟨other, ho, hname⟩)

namespace Fill

variable (hf : Fill kind.grammar fields next completed after)

include hf

theorem lookup_of_not_gap (hr : rule ∈ kind.grammar) (hg : rule.isGap fields = false) :
    completed.lookup rule.name = fields.lookup rule.name := by
  refine hf.kept rule.name fun other ho hgap hname => ?_
  rw [Kind.eq_of_name_eq hr ho hname, hg] at hgap
  cases hgap

theorem not_absent_of_gap (hr : rule ∈ kind.grammar) (hg : rule.isGap fields = true) :
    completed.lookup rule.name ≠ some (.optional none) := by
  have hm : rule ∈ kind.grammar.filter (·.isGap fields) := List.mem_filter.mpr ⟨hr, hg⟩
  obtain ⟨index, hi⟩ := List.getElem?_of_mem hm
  obtain ⟨_, _, stand, _, _, hl⟩ := hf.filled index rule hi
  simp [hl]

/-- Filling the gaps opens no other: a field that is lacking then was lacking before, and nothing
can stand in for it. -/
theorem lacks (hr : rule ∈ kind.grammar) (hl : rule.Lacks completed pair beside) :
    rule.Lacks fields pair beside ∧ pair.fallback = none := by
  have hkept : rule.isGap fields = false := by
    by_contra hg
    exact hf.not_absent_of_gap hr (by simpa using hg) hl.absent
  have habsent : fields.lookup rule.name = some (.optional none) :=
    (hf.lookup_of_not_gap hr hkept).symm.trans hl.absent
  obtain ⟨half, back, hh⟩ := Kind.exists_halves hr hl.pair_eq
  have hhalf : half.isGap fields = false := isGap_eq_false_iff.mpr fun opposite node hother =>
    absurd hh.sibling (hother.sibling_ne hh.half_mem hr hl.pair_eq habsent)
  have hbeside := hl.beside
  rw [hh.sibling, hf.lookup_of_not_gap hh.half_mem hhalf, ← hh.sibling] at hbeside
  have hlacks : rule.Lacks fields pair beside := ⟨hl.pair_eq, habsent, hbeside⟩
  exact ⟨hlacks, isGap_eq_false_iff.mp hkept pair beside hlacks⟩

theorem not_gap (hr : rule ∈ kind.grammar) : rule.isGap completed = false :=
  isGap_eq_false_iff.mpr fun _ _ hl => (hf.lacks hr hl).2

end Fill

end FieldRule

namespace Kind

variable {kind : Kind} {fields : Fields} {rule : FieldRule} {pair : Pair} {beside : Node}
  {name : String} {content : Field Node}

/-- Completing the pairs of a kind fills every gap, once. -/
theorem completePairs_fill {ε : Type} (hn : fields.map (·.1) = kind.grammar.map (·.name))
    (next : Nat) : ∃ completed after,
      (kind.completePairs fields : Construct ε Fields) next = .ok completed after ∧
        FieldRule.Fill kind.grammar fields next completed after := by
  have hfst : kind.grammar.zipIdx.map (·.1) = kind.grammar := List.zipIdx_map_fst 0 kind.grammar
  have hd : ((kind.grammar.zipIdx.map (·.1)).map (·.name)).Nodup :=
    hfst.symm ▸ kind.grammar_names_nodup
  obtain ⟨completed, after, hok, hf⟩ :=
    FieldRule.foldlM_complete (ε := ε) (fun _ he => he) hd hn next
  exact ⟨completed, after, hok, hfst ▸ hf⟩

theorem not_lacks_of_check (hn : fields.map (·.1) = kind.grammar.map (·.name))
    (hc : kind.check fields = .ok ()) (hr : rule ∈ kind.grammar) :
    ¬ rule.Lacks fields pair beside := by
  intro hl
  obtain ⟨content, hcontent, hm⟩ := (check_eq_ok_iff_meets hn).mp hc rule hr
  cases hl.absent.symm.trans hcontent
  have habsent := hm.alone pair hl.pair_eq rfl
  rw [hl.isPresent] at habsent
  cases habsent

/-- What the check finds unpaired is lacking. -/
theorem exists_lacks_of_unpaired (hn : fields.map (·.1) = kind.grammar.map (·.name)) {owner : Kind}
    {field sibling : String} (hc : kind.check fields = .error (.unpaired owner field sibling)) :
    owner = kind ∧ ∃ rule ∈ kind.grammar, ∃ pair beside, rule.Lacks fields pair beside ∧
      rule.name = field ∧ pair.sibling = sibling := by
  obtain ⟨hg, -, hl, hfault⟩ := firstFault_of_check hn hc
  cases hfault with
  | refused _ h => cases h
  | @unpaired pair ha hp habsent hs =>
    have harity : _ = Arity.optional := ha.trans (Shape.arity_of_pair? (by rw [hp]; rfl))
    obtain ⟨beside, hb⟩ := FieldRule.exists_head_iff.mpr hs
    rw [Field.eq_none_of_absent harity habsent] at hl
    exact ⟨rfl, _, by simp [hg], pair, beside, ⟨hp, hl, hb⟩, rfl, rfl⟩

section Released

theorem map_fst_releaseSibling (kind : Kind) (name : String) (fields : Fields) :
    (kind.releaseSibling name fields).map (·.1) = fields.map (·.1) := by
  unfold releaseSibling
  split
  next =>
    split
    next => rfl
    next =>
      rw [List.map_map]
      refine List.map_congr_left ?_
      rintro ⟨key, content⟩ _
      cases content <;> rfl
  next => rfl

theorem lookup_releaseSibling_of_ne {other : String}
    (h : ∀ rule ∈ kind.rule? name, ∀ pair ∈ rule.shape.pair?, pair.sibling ≠ other) :
    (kind.releaseSibling name fields).lookup other = fields.lookup other := by
  unfold releaseSibling
  split
  next sibling hp =>
    obtain ⟨rule, hr, hpair⟩ := Option.bind_eq_some_iff.mp hp
    have hne : sibling ≠ other := h rule hr _ hpair
    split
    next => rfl
    next habsent =>
      -- That the field is absent is said of all the fields, which the induction takes apart.
      clear habsent
      induction fields with
      | nil => rfl
      | cons field rest ih =>
        obtain ⟨key, content⟩ := field
        by_cases hk : other = key
        · subst hk
          cases content <;> simp [hne.symm]
        · cases content <;> simpa [List.lookup_cons, beq_eq_false_iff_ne.mpr hk] using ih
  next => rfl

/-- A half is released when the other one was removed, never otherwise. -/
theorem Halves.lookup_releaseSibling {half : FieldRule} {back : Pair}
    (h : kind.Halves rule pair half back) (hne : half.name ≠ name) :
    (kind.releaseSibling name fields).lookup rule.name = fields.lookup rule.name := by
  refine lookup_releaseSibling_of_ne fun other ho opposite hopp => ?_
  obtain ⟨hother, hname⟩ := Node.rule?_eq_some ho
  exact h.sibling_ne hother hopp fun he => hne (he ▸ hname)

/-- A half that nothing can stand in for takes the other one with it when it is emptied. -/
theorem Halves.absent_releaseSibling {half : FieldRule} {back : Pair}
    (h : kind.Halves rule pair half back) (hl : fields.layout = kind.layout)
    (hb : pair.fallback = none) (ha : content.isPresent = false) :
    ((kind.releaseSibling rule.name (Fields.assign rule.name content fields)).lookup half.name).any
      (·.isPresent) = false := by
  obtain ⟨sibling, _⟩ := pair
  obtain rfl : sibling = half.name := h.sibling
  obtain rfl := hb
  have harity : ∀ held, (half.name, held) ∈ Fields.assign rule.name content fields →
      held.arity = .optional := by
    intro held hm
    obtain ⟨⟨key, old⟩, hold, heq⟩ := List.mem_map.mp hm
    obtain ⟨rfl, rfl⟩ := Prod.mk.inj heq
    rw [if_neg (by simpa using h.ne)]
    exact (arity_of_mem hl h.half_mem hold).trans h.symm.arity
  have habsent : ((Fields.assign rule.name content fields).lookup rule.name).any
      (·.isPresent) = false := by
    simp [Fields.any_isPresent_assign_absent ha]
  have hnone : (Field.optional (none : Option Node)).isPresent = false := rfl
  rw [releaseSibling_eq_assign h.rule_mem h.pair_eq harity habsent,
    Fields.any_isPresent_assign_absent hnone]
  simp

/-- When one of the fields that fit was emptied and its sibling released, something can stand in
for each field that is lacking. -/
theorem Fits.fallback_of_released (h : kind.Fits fields) (ha : content.isPresent = false)
    (hr : rule ∈ kind.grammar)
    (hl : rule.Lacks (kind.releaseSibling name (Fields.assign name content fields)) pair beside) :
    pair.fallback ≠ none := by
  intro hb
  obtain ⟨half, back, hh⟩ := exists_halves hr hl.pair_eq
  have hpresent := hl.isPresent
  rw [hh.sibling] at hpresent
  by_cases hrule : rule.name = name
  · subst hrule
    rw [hh.absent_releaseSibling h.layout hb ha] at hpresent
    cases hpresent
  · rw [hh.symm.lookup_releaseSibling hrule, Fields.any_isPresent_assign_absent ha] at hpresent
    obtain ⟨hhalf, hpresent⟩ : half.name ≠ name ∧
        (fields.lookup half.name).any (·.isPresent) = true := by simpa using hpresent
    have habsent := hl.absent
    rw [hh.lookup_releaseSibling hhalf, Fields.lookup_assign_of_ne hrule] at habsent
    -- Neither half was touched, so that they would not have fitted each other before.
    have hpaired := h.paired rule hr pair hl.pair_eq
    rw [habsent, hh.sibling, hpresent] at hpaired
    cases hpaired

end Released

/-- What completing the pairs of a kind comes to. Only an absent field is changed, when something
can stand in for it and its sibling holds a node; fields that the check accepts stay, and use up no
number. Nothing is left for a second pass, and what the check then finds unpaired is the member of
a borrow or the default of a parameter. -/
structure Completes (ε : Type) (kind : Kind) (fields : Fields) (next : Nat) (completed : Fields)
    (after : Nat) : Prop where
  result : (kind.completePairs fields : Construct ε Fields) next = .ok completed after
  fill : FieldRule.Fill kind.grammar fields next completed after
  changed : ∀ name, completed.lookup name ≠ fields.lookup name →
    ∃ rule ∈ kind.grammar, rule.name = name ∧
      ∃ pair beside, rule.Lacks fields pair beside ∧ pair.fallback.isSome = true
  accepted : kind.check fields = .ok () → completed = fields ∧ after = next
  settled : (kind.completePairs completed : Construct ε Fields) = pure completed
  unpaired : ∀ owner field sibling,
    kind.check completed = .error (.unpaired owner field sibling) →
      owner = kind ∧
        (kind = .borrow ∧ field = "name" ∧ sibling = "dot" ∨
          kind = .bind ∧ field = "value" ∧ sibling = "colon")

theorem exists_completes (ε : Type) (hn : fields.map (·.1) = kind.grammar.map (·.name))
    (next : Nat) : ∃ completed after, kind.Completes ε fields next completed after := by
  obtain ⟨completed, after, hok, hf⟩ := completePairs_fill (ε := ε) hn next
  have hcompleted := hf.names.trans hn
  refine ⟨completed, after, hok, hf, fun name hne => ?_, fun hc => ?_, ?_, ?_⟩
  · by_contra hno
    refine hne (hf.kept name fun rule hr hg hname => hno ?_)
    exact ⟨rule, hr, hname, FieldRule.isGap_iff.mp hg⟩
  · have hkept : (kind.completePairs fields : Construct ε Fields) = pure fields :=
      completePairs_eq_pure hn fun rule hr => FieldRule.isGap_eq_false_iff.mpr fun _ _ hl =>
        absurd hl (not_lacks_of_check hn hc hr)
    rw [hkept] at hok
    cases hok
    exact ⟨rfl, rfl⟩
  · exact completePairs_eq_pure hcompleted fun rule hr => hf.not_gap hr
  · intro owner field sibling hc
    obtain ⟨rfl, rule, hr, pair, beside, hl, rfl, rfl⟩ := exists_lacks_of_unpaired hcompleted hc
    exact ⟨rfl, owner.bound_rules rule hr pair hl.pair_eq (hf.lacks hr hl).2⟩

/-- Completing the pairs of a kind always succeeds. When it follows on a field that was emptied, with
its sibling released, in fields that the check accepts, no half is missing afterwards. -/
theorem completePairs_outcome (ε : Type) (hn : fields.map (·.1) = kind.grammar.map (·.name))
    (next : Nat) :
    (∃ completed after, kind.Completes ε fields next completed after) ∧
      (kind.check fields = .ok () → ∀ name content, content.isPresent = false →
        ∃ completed after, kind.Completes ε
          (kind.releaseSibling name (Fields.assign name content fields)) next completed after ∧
            ∀ owner field sibling,
              kind.check completed ≠ .error (.unpaired owner field sibling)) := by
  refine ⟨exists_completes ε hn next, fun hc name content ha => ?_⟩
  have hfits : kind.Fits fields := fits_iff.mpr ⟨hn, hc⟩
  have hreleased : (kind.releaseSibling name (Fields.assign name content fields)).map (·.1) =
      kind.grammar.map (·.name) := by
    rw [map_fst_releaseSibling, Fields.map_fst_assign, hn]
  obtain ⟨completed, after, hcompletes⟩ := exists_completes ε hreleased next
  refine ⟨completed, after, hcompletes, fun owner field sibling herror => ?_⟩
  obtain ⟨-, rule, hr, pair, beside, hl, -⟩ :=
    exists_lacks_of_unpaired (hcompletes.fill.names.trans hreleased) herror
  obtain ⟨hlacks, hnone⟩ := hcompletes.fill.lacks hr hl
  exact hfits.fallback_of_released ha hr hlacks hnone

/-- The opening brace of a block is taken away and nothing is released; another one stands in. -/
theorem completePairs_outcome_unopened :
    Session.bracedBlock.fields.map (·.1) = block.grammar.map (·.name) ∧
      block.check Session.bracedBlock.fields = .ok () ∧
        block.Completes EditError
          (block.releaseSibling "open"
            (Fields.assign "open" (.optional none) Session.bracedBlock.fields))
          4 Session.rebracedBlock.fields 5 ∧
        ∀ owner field sibling, block.check Session.rebracedBlock.fields ≠
          .error (.unpaired owner field sibling) := by
  have hn : Session.bracedBlock.fields.map (·.1) = block.grammar.map (·.name) := rfl
  have hc : block.check Session.bracedBlock.fields = .ok () := rfl
  obtain ⟨completed, after, hcompletes, hpaired⟩ :=
    (completePairs_outcome EditError hn 4).2 hc "open" (.optional none) rfl
  have hresult : (block.completePairs
      (block.releaseSibling "open" (Fields.assign "open" (.optional none)
        Session.bracedBlock.fields)) : Construct EditError Fields) 4 =
          .ok Session.rebracedBlock.fields 5 := rfl
  cases hcompletes.result.symm.trans hresult
  exact ⟨hn, hc, hcompletes, hpaired⟩

end Kind

end ProgramTree
