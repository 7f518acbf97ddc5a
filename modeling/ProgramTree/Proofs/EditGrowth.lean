import ProgramTree.DeepEdit
import ProgramTree.Proofs.Grafts
import ProgramTree.Proofs.Growth

namespace ProgramTree

/-- The nodes that an edit brings along. -/
def Edit.handles : Edit → List Node
  | child target replacement => target.toList ++ replacement.toList
  | list nodes => nodes

/-- The nodes of a step of a deep edit. -/
def oldAndNew (current : Node × Option Node) : List Node :=
  current.1 :: current.2.toList

theorem Field.nodes_edit_subset {kind : Kind} {name : String} {content edited : Field Node}
    {edit : Edit} (h : content.edit kind name edit = .ok edited) :
    edited.nodes ⊆ edit.handles ++ content.nodes := by
  unfold Field.edit at h
  split at h
  · cases h
    simp [nodes, Edit.handles]
  · cases h
  · split at h
    · split at h
      · cases h
        simp [nodes, Edit.handles]
      · cases h
    · cases h
  · split at h
    · cases h
      simp [nodes, Edit.handles]
    · cases h
  · cases h
    simp [nodes, Edit.handles]
  · split at h
    · cases h
      grind [nodes, Edit.handles, List.mem_of_mem_take, List.mem_of_mem_drop]
    · cases h

theorem Fields.nodes_assign_subset (name : String) (content : Field Node) (fields : Fields) :
    nodes (assign name content fields) ⊆ content.nodes ++ nodes fields := by
  intro node hn
  obtain ⟨field, hf, hm⟩ := List.mem_flatMap.mp hn
  obtain ⟨⟨other, old⟩, ho, rfl⟩ := List.mem_map.mp hf
  by_cases he : other = name
  · exact List.mem_append_left _ (by simpa [he] using hm)
  · exact List.mem_append_right _ (List.mem_flatMap.mpr ⟨_, ho, by simpa [he] using hm⟩)

theorem Kind.nodes_releaseSibling_subset (kind : Kind) (removed : String) (fields : Fields) :
    Fields.nodes (kind.releaseSibling removed fields) ⊆ Fields.nodes fields := by
  unfold releaseSibling
  split
  next sibling _ =>
    split
    next => exact List.Subset.refl _
    next =>
      intro node hn
      obtain ⟨field, hf, hm⟩ := List.mem_flatMap.mp hn
      obtain ⟨⟨other, old⟩, ho, rfl⟩ := List.mem_map.mp hf
      refine List.mem_flatMap.mpr ⟨_, ho, ?_⟩
      cases old with
      | one | list => exact hm
      | optional present =>
        by_cases he : other = sibling
        · simp [he, Field.nodes] at hm
        · simpa [he] using hm
  next => exact List.Subset.refl _

theorem Kind.nodes_arrange {kind : Kind} {fields arranged : Fields}
    (h : kind.arrange fields = .ok arranged) : Fields.nodes arranged = Fields.nodes fields := by
  have hcontents := (arrange_eq_ok_iff.mp h).2
  simp only [Fields.nodes, ← List.flatMap_map, hcontents]

theorem Kind.map_fst_arrange {kind : Kind} {fields arranged : Fields}
    (h : kind.arrange fields = .ok arranged) :
    arranged.map (·.1) = kind.grammar.map (·.name) :=
  map_fst_of_layout (arrange_eq_ok_iff.mp h).1

theorem mapError_eq_ok_iff {ε ε' α : Type} {f : ε → ε'} {result : Except ε α} {a : α} :
    result.mapError f = .ok a ↔ result = .ok a := by
  cases result <;> simp [Except.mapError]

theorem Node.mem_descendants_of_spine? {root : Node} {path : List Step}
    {spine : List (Node × Step)} (h : root.spine? path = some spine) :
    ∀ entry ∈ spine, entry.1 ∈ root.descendants := by
  induction path generalizing root spine with
  | nil =>
    cases h
    simp
  | cons step path ih =>
    obtain ⟨child, hc, h⟩ := Option.bind_eq_some_iff.mp h
    obtain ⟨below, hb, h⟩ := Option.bind_eq_some_iff.mp h
    cases h
    refine List.forall_mem_cons.mpr ⟨mem_descendants_self root, fun entry he => ?_⟩
    exact mem_descendants.mpr (.inr ⟨child, mem_children_of_childAt? hc, ih hb entry he⟩)

namespace Construct.Grows

variable {given : Symbol → String → Prop} {ε α β : Type} {handles : List Node}

/-- A handle is lawful, and whoever holds it holds its descendants. -/
theorem look {make : Construct ε α} {answer : α → List Node} {node : Node} (hn : node ∈ handles)
    (h : node.Lawful given → Grows given (node.descendants ++ handles) make answer) :
    Grows given handles make answer := by
  intro next nodes hledger hh
  have hm : node ∈ nodes := hh hn
  have hbelow : node.descendants ⊆ nodes :=
    fun _ hd => hledger.history.mem_of_mem_descendants hm hd
  exact h (hledger.lawful node hm) next nodes hledger (List.append_subset.mpr ⟨hbelow, hh⟩)

theorem foldlM {step : β → α → Construct ε β} {answer : β → List Node} {items : List α}
    (h : ∀ item ∈ items, ∀ current,
      Grows given (answer current ++ handles) (step current item) answer) (start : β) :
    Grows given (answer start ++ handles) (items.foldlM step start) answer := by
  induction items generalizing start with
  | nil => exact pure (by simp)
  | cons item rest ih =>
    rw [List.foldlM_cons]
    refine (h item (by simp) start).bind fun current => ?_
    exact (ih (fun other ho => h other (by simp [ho])) current).weaken (by grind)

theorem foldrM {step : α → β → Construct ε β} {answer : β → List Node} {items : List α}
    (h : ∀ item ∈ items, ∀ current,
      Grows given (answer current ++ handles) (step item current) answer) (start : β) :
    Grows given (answer start ++ handles) (items.foldrM step start) answer := by
  induction items with
  | nil => exact pure (by simp)
  | cons item rest ih =>
    rw [List.foldrM_cons]
    refine (ih fun other ho => h other (by simp [ho])).bind fun current => ?_
    exact (h item (by simp) current).weaken (by grind)

theorem complete {kind : Kind} {rule : FieldRule} (hr : rule ∈ kind.grammar) (index : Nat)
    (fields : Fields) :
    Grows given fields.nodes (rule.complete index fields : Construct ε Fields) Fields.nodes := by
  unfold FieldRule.complete
  split
  next sibling fallback name hp hf =>
    split
    next present _ =>
      have ht := kind.fallback_fits rule hr _ hp fallback rfl _ (fallback.symbolFor_mem present)
      refine (mark ht.1).bind fun stand => pure ?_
      intro node hn
      obtain ⟨field, hm, hn⟩ := List.mem_flatMap.mp hn
      rcases List.mem_or_eq_of_mem_set hm with hm | rfl
      · exact List.mem_append_right _ (List.mem_flatMap.mpr ⟨field, hm, hn⟩)
      · exact List.mem_append_left _ hn
    next => exact pure (List.Subset.refl _)
  next => exact pure (List.Subset.refl _)

theorem completePairs (kind : Kind) (fields : Fields) :
    Grows given fields.nodes (kind.completePairs fields : Construct ε Fields) Fields.nodes := by
  have h : Grows given (fields.nodes ++ []) (kind.completePairs fields : Construct ε Fields)
      Fields.nodes := by
    refine foldlM (fun entry he current => ?_) fields
    exact (complete (List.fst_mem_of_mem_zipIdx he) entry.2 current).weaken (by simp)
  exact h.weaken (by simp)

theorem assemble {kind : Kind} (hk : kind ≠ .token) (fields : Fields) :
    Grows given fields.nodes (kind.assemble fields) ([·]) := by
  refine ofExcept_bind fun arranged ha => ofExcept_bind fun _ hcheck => ?_
  have ha := mapError_eq_ok_iff.mp ha
  have hfits := Kind.fits_iff.mpr ⟨Kind.map_fst_arrange ha, mapError_eq_ok_iff.mp hcheck⟩
  have hnodes : arranged.nodes = fields.nodes := Kind.nodes_arrange ha
  exact tree hk hfits (hnodes ▸ List.Subset.refl _)

theorem replace (node : Node) (name : String) (edit : Edit) :
    Grows given (node :: edit.handles) (node.replace name edit) ([·]) := by
  refine look List.mem_cons_self fun hlawful => ?_
  have hchildren : node.fields.nodes ⊆ node.descendants := by
    intro child hc
    exact Node.mem_descendants.mpr (.inr ⟨child, hc, child.mem_descendants_self⟩)
  unfold Node.replace
  split
  next content hf =>
    have hk : node.kind ≠ .token := by
      intro hk
      cases hlawful.wellFormed with
      | token => cases hf
      | tree hne => exact hne hk
    have hcontent : content.nodes ⊆ node.descendants := by
      intro child hc
      exact hchildren (Node.mem_children_of_field? hf hc)
    refine ofExcept_bind fun edited he => ?_
    have hreleased : (node.kind.releaseSibling name (.assign name edited node.fields)).nodes ⊆
        node.descendants ++ node :: edit.handles := by
      intro held hm
      have hm := node.kind.nodes_releaseSibling_subset name _ hm
      rcases List.mem_append.mp (Fields.nodes_assign_subset name edited _ hm) with hm | hm
      · rcases List.mem_append.mp (Field.nodes_edit_subset he hm) with hm | hm
        · simp [hm]
        · exact List.mem_append_left _ (hcontent hm)
      · exact List.mem_append_left _ (hchildren hm)
    refine ((completePairs node.kind _).weaken hreleased).bind fun completed => ?_
    exact (assemble hk completed).weaken (List.subset_append_left _ _)
  next => exact throw _

theorem rebuildParent (entry : Node × Step) (current : Node × Option Node) :
    Grows given (entry.1 :: oldAndNew current) (Node.rebuildParent entry current) oldAndNew := by
  refine ((replace entry.1 entry.2.field (.child (some current.1) current.2)).weaken ?_).bind
    fun rebuilt => pure ?_
  · simp [Edit.handles, oldAndNew]
  · simp [oldAndNew]

theorem rebuild (root target : Node) (replacement : Option Node) (levels : Nat) :
    Grows given (root :: target :: replacement.toList)
      (root.rebuild target replacement levels) ([·]) := by
  unfold Node.rebuild
  split
  next path _ =>
    split
    next spine hs =>
      refine look List.mem_cons_self fun _ => ?_
      have hfold : Grows given (oldAndNew (target, replacement) ++ root.descendants)
          ((spine.drop (path.length - levels)).foldrM Node.rebuildParent (target, replacement))
          oldAndNew := by
        refine foldrM (fun entry he current => ?_) (target, replacement)
        have hp := Node.mem_descendants_of_spine? hs entry (List.mem_of_mem_drop he)
        exact (rebuildParent entry current).weaken (by grind)
      refine (hfold.weaken (by grind [oldAndNew])).bind fun reached => ?_
      obtain ⟨old, new⟩ := reached
      cases new with
      | some result => exact pure (by simp [oldAndNew])
      | none => exact throw _
    next => exact throw _
  next => exact throw _

theorem replaceWithin (root target : Node) (replacement : Option Node) :
    Grows given (root :: target :: replacement.toList)
      (root.replaceWithin target replacement) ([·]) := by
  unfold Node.replaceWithin
  split
  · exact rebuild root target replacement _
  · exact throw _

end Construct.Grows

end ProgramTree
