import ProgramTree.Proofs.DisjointEdits

namespace ProgramTree

/-- When a function has a value at one item only, that is what a search finds. -/
theorem findSome?_eq_of_mem {α β : Type} {f : α → Option β} {items : List α} {item : α}
    (hm : item ∈ items) (ho : ∀ other ∈ items, other = item ∨ f other = none) :
    items.findSome? f = f item := by
  cases hv : items.findSome? f with
  | none => exact (List.findSome?_eq_none_iff.mp hv item hm).symm
  | some value =>
    obtain ⟨other, hother, hf⟩ := List.exists_of_findSome?_eq_some hv
    rcases ho other hother with rfl | hnone
    · exact hf.symm
    · cases hf.symm.trans hnone

namespace Node

variable {root node old new target parent child tree : Node} {step : Step}
  {path front : List Step} {next after : Nat} {nodes : List Node}

/-- What an undone edit leaves: the content is that of the root, and every node off the path is the
node that was there. -/
structure Restored (root : Node) (path : List Step) (restored : Node) : Prop
    extends restored.Alike root where
  shared : ∀ other, (other <+: path → other = path) →
    restored.nodeAt? other = root.nodeAt? other

theorem WellFormed.erase_graft_self (h : root.WellFormed) (hn : root.nodeAt? path = some node)
    (number : Nat → Nat) : (root.graft path node number).erase = root.erase := by
  induction path generalizing root with
  | nil =>
    cases hn
    rfl
  | cons step path ih =>
    rw [nodeAt?_cons] at hn
    obtain ⟨child, hc, hn⟩ := Option.bind_eq_some_iff.mp hn
    have hchild := h.of_mem_children (mem_children_of_childAt? hc)
    rw [graft_cons hc, erase_put, ih hchild hn, ← erase_put root step child root.id, h.put_self hc]

theorem WellFormed.restored_graft (h : root.WellFormed) (hn : root.nodeAt? path = some node)
    (next : Nat) : root.Restored path (root.graft path node (next + ·)) where
  toAlike := .of_erase_eq (h.erase_graft_self hn _)
  shared other ho := by
    have hreplaced := replaced_graft hn node next
    by_cases hp : path <+: other
    · obtain ⟨rest, rfl⟩ := hp
      rw [nodeAt?_append, nodeAt?_append, hreplaced.here, hn]
    · exact hreplaced.aside other hp fun hback => hp (ho hback ▸ List.prefix_rfl)

/-- A node that was nowhere in the tree is found where it was grafted. -/
theorem Leads.pathTo?_graft_of_free (h : root.Leads path node) (hw : root.WellFormed)
    (number : Nat → Nat)
    (hfresh : ∀ (made : Node) depth, made.id = number depth → made.same target = false)
    (hfree : ∀ held ∈ root.descendants, held.same target = false) (new : Node) :
    pathTo? target (root.graft path new number) = (pathTo? target new).map (path ++ ·) := by
  induction h with
  | here => simp
  | @step root child node step path hc _ h ih =>
    have hm := mem_children_of_childAt? hc
    have hinner := ih (hw.of_mem_children hm) fun held hd =>
      hfree held (mem_descendants.mpr (.inr ⟨child, hm, hd⟩))
    have hroot := hfresh (root.put step (child.graft path new number) (number path.length)) _
      (id_put ..)
    -- The other branches are those of the root, which do not hold the target.
    rw [graft_cons hc, pathTo?_eq, hroot, branches_put, List.findSome?_map,
      findSome?_eq_of_mem (mem_branches_of_childAt? hc) fun branch hb => ?_]
    · simp [hinner, Function.comp_def]
    · by_cases hs : branch.1 = step
      · have hat : root.childAt? branch.1 = some branch.2 := hw.childAt?_of_mem_branches hb
        rw [hs, hc] at hat
        exact .inl (Prod.ext hs (Option.some.inj hat).symm)
      · have hnone : pathTo? target branch.2 = none := pathTo?_eq_none_iff.mpr fun held hd =>
          hfree held (mem_descendants.mpr (.inr ⟨_, mem_children_of_branches hb, hd⟩))
        simp [hs, hnone]

/-- A replacement that is not in the tree can be taken back at a place other than the root. -/
theorem FirstPlace.replaceWithin_back (h : root.FirstPlace target front step parent child)
    (hh : History next nodes) (hr : root ∈ nodes) (hw : root.WellFormed)
    (ht : target ∈ root.descendants) (hn : new ∈ nodes) (hwn : new.WellFormed)
    (hfree : ∀ held ∈ root.descendants, held.same new = false)
    (he : root.replaceWithin target (some new) next = .ok tree after) :
    pathTo? new tree = some (front ++ [step]) ∧ ∀ later, ∃ restored last,
      tree.replaceWithin new (some target) later = .ok restored last ∧
        root.Restored (front ++ [step]) restored := by
  obtain ⟨rule, content, hold⟩ := (h.leads.wellFormed hw).exists_holding h.childAt
  have hleads := h.leads.append_step h.childAt h.foremost
  obtain rfl := h.child_eq hh hr ht
  have hadmits := h.permitted hw hold he
  rw [h.replaceWithin_some hw hold hadmits] at he
  cases he
  -- What was grafted stands on the path of the node it replaced, and nowhere before.
  have hpath : pathTo? new (root.graft (front ++ [step]) new (next + ·)) =
      some (front ++ [step]) := by
    rw [hleads.pathTo?_graft_of_free hw _ (fun made depth hid =>
      hh.same_eq_false_of_le hn (by omega)) hfree, pathTo?_self]
    simp
  refine ⟨hpath, fun later => ?_⟩
  have hwellFormed : (root.graft (front ++ [step]) new (next + ·)).WellFormed :=
    h.wellFormed_graft hw hold hadmits hwn
  obtain ⟨kept, held, rest, hplace, hback⟩ := h.exists_place_graft hh hr hw hold hadmits hn hwn
    hpath (fun hp => absurd hp.length_le (by simp)) h.leads.nodeAt?_eq hold
  have hown : rule.shape.permits.any (·.admits child) = true :=
    List.any_eq_true.mpr (hold.admits_alike rfl rfl)
  refine ⟨_, _, hplace.replaceWithin_some hwellFormed hback hown, ?_⟩
  rw [graft_graft h.nodeAt?_eq]
  exact hw.restored_graft h.nodeAt?_eq later

/-- A replacement by a node that is not in the tree can be taken back. The new node has its first
place where the old one had it, and putting the old one there again restores the tree. -/
theorem replaceWithin_undone (hh : History next nodes) (hr : root ∈ nodes) (hw : root.WellFormed)
    (ht : target ∈ root.descendants) (hn : new ∈ nodes) (hwn : new.WellFormed)
    (hfree : ∀ held ∈ root.descendants, held.same new = false)
    (he : root.replaceWithin target (some new) next = .ok tree after) :
    ∃ path, pathTo? target root = some path ∧ pathTo? new tree = some path ∧
      ∀ later, ∃ restored last, tree.replaceWithin new (some target) later = .ok restored last ∧
        root.Restored path restored := by
  obtain ⟨path, hp⟩ := exists_pathTo?_of_mem ht
  refine ⟨path, hp, ?_⟩
  rcases List.eq_nil_or_concat' path with rfl | ⟨front, step, rfl⟩
  · have hroot : root = target := hh.eq_of_id_eq hr (hh.mem_of_mem_descendants hr ht)
      (by simpa [same] using pathTo?_eq_nil_iff.mp hp)
    rw [replaceWithin_of_nil hp] at he
    cases he
    refine ⟨pathTo?_self new, fun later => ⟨target, later, ?_, ?_⟩⟩
    · rw [replaceWithin_of_nil (pathTo?_self new)]
    · rw [← hroot]
      exact hw.restored_graft nodeAt?_nil later
  · obtain ⟨parent, child, hplace⟩ := hw.exists_firstPlace hh hr hp
    exact hplace.replaceWithin_back hh hr hw ht hn hwn hfree he

section Phrase

/-- Words around the letter of a phrase. -/
def wrappedLetter : Node :=
  .tree 5 .words
    [("open", .optional none), ("segments", .list [phraseLetter]), ("close", .optional none)]

/-- The first of two occurrences is wrapped, and unwrapped again. -/
theorem replaceWithin_undone_phrase :
    History 6 (wrappedLetter :: phraseNodes) ∧
      phraseLetter ∈ wrappedLetter.descendants ∧
      phrase.descendants.countP (·.same phraseLetter) = 2 ∧
      ∃ tree after, phrase.replaceWithin phraseLetter (some wrappedLetter) 6 = .ok tree after ∧
        pathTo? wrappedLetter tree = some [⟨"segments", some 0⟩, ⟨"segments", some 0⟩] ∧
        ∃ restored last, tree.replaceWithin wrappedLetter (some phraseLetter) after =
          .ok restored last ∧
          phrase.Restored [⟨"segments", some 0⟩, ⟨"segments", some 0⟩] restored := by
  have history : History 6 (wrappedLetter :: phraseNodes) := by
    refine history_phraseNodes.construct rfl ?_
    simp [wrappedLetter, phraseNodes, children, fields, Field.nodes]
  have hroot : phrase ∈ wrappedLetter :: phraseNodes :=
    List.mem_cons_of_mem _ phrase_mem_phraseNodes
  have hwrapped : wrappedLetter.nodeAt? [⟨"segments", some 0⟩] = some phraseLetter := rfl
  have hedit : ∃ tree after,
      phrase.replaceWithin phraseLetter (some wrappedLetter) 6 = .ok tree after := by
    simp only [replaceWithin, rebuild, pathTo?_phraseLetter]
    exact ⟨_, _, rfl⟩
  obtain ⟨tree, after, he⟩ := hedit
  obtain ⟨path, hp, hback, hundo⟩ := replaceWithin_undone history hroot wellFormed_phrase
    phraseLetter_mem_descendants List.mem_cons_self (by decide +kernel) (by decide +kernel) he
  cases hp.symm.trans pathTo?_phraseLetter
  exact ⟨history, mem_descendants_of_nodeAt? hwrapped, by decide +kernel, tree, after, he, hback,
    hundo after⟩

end Phrase

end Node

end ProgramTree
