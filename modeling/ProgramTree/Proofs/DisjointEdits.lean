import ProgramTree.Proofs.DeepReplacement
import ProgramTree.Proofs.Erasure

namespace ProgramTree.Node

variable {root node old new child parent : Node} {step other : Step} {path front : List Step}
  {next : Nat} {nodes : List Node}

/-- Grafts at places of which neither is above the other commute, where all new nodes have one
number. -/
theorem graft_comm {id : Nat} {second : List Step} (hp : ¬ path <+: second) (hs : ¬ second <+: path)
    {a b : Node} (ha : root.nodeAt? path = some a) (hb : root.nodeAt? second = some b)
    (first last : Node) :
    (root.graft path first fun _ => id).graft second last (fun _ => id) =
      (root.graft second last fun _ => id).graft path first fun _ => id := by
  induction path generalizing root second with
  | nil => exact absurd List.nil_prefix hp
  | cons step path ih =>
    cases second with
    | nil => exact absurd List.nil_prefix hs
    | cons turn second =>
      rw [nodeAt?_cons] at ha hb
      obtain ⟨child, hc, ha⟩ := Option.bind_eq_some_iff.mp ha
      obtain ⟨other, ho, hb⟩ := Option.bind_eq_some_iff.mp hb
      rw [graft_cons hc, graft_cons ho]
      by_cases he : step = turn
      · subst he
        cases hc.symm.trans ho
        have hinner := ih (fun h => hp (List.cons_prefix_cons.mpr ⟨rfl, h⟩))
          (fun h => hs (List.cons_prefix_cons.mpr ⟨rfl, h⟩)) ha hb
        rw [graft_cons (childAt?_put_of_some hc), graft_cons (childAt?_put_of_some hc), put_put,
          put_put, hinner]
      · have hfirst : ∀ held, (root.put turn held id).childAt? step = some child :=
          fun _ => (childAt?_put_of_ne (Ne.symm he)).trans hc
        have hlast : ∀ held, (root.put step held id).childAt? turn = some other :=
          fun _ => (childAt?_put_of_ne he).trans ho
        rw [graft_cons (hlast _), graft_cons (hfirst _), put_comm he]

/-- The first place of a node stays where it is when what is replaced elsewhere does not hold it. -/
theorem Leads.pathTo?_graft (h : root.Leads path old) (hw : root.WellFormed) {target : Node}
    (number : Nat → Nat)
    (hfresh : ∀ (node : Node) depth, node.id = number depth → node.same target = false)
    (hold : pathTo? target old = none) (hnew : pathTo? target new = none)
    (habove : ∀ node ∈ root.descendants, old ∈ node.descendants → node.same target = false) :
    pathTo? target (root.graft path new number) = pathTo? target root := by
  induction h with
  | here => rw [graft_nil, hold, hnew]
  | @step root child old step path hc _ h ih =>
    have hm := mem_children_of_childAt? hc
    have hinner := ih (hw.of_mem_children hm) hold fun node hn =>
      habove node (mem_descendants.mpr (.inr ⟨child, hm, hn⟩))
    have hroot : root.same target = false := by
      refine habove root root.mem_descendants_self (mem_descendants.mpr (.inr ⟨child, hm, ?_⟩))
      exact mem_descendants_of_nodeAt? h.nodeAt?_eq
    have hput : (root.put step (child.graft path new number) (number path.length)).same target =
        false := hfresh _ _ (id_put ..)
    rw [graft_cons hc, pathTo?_eq, pathTo?_eq target root, hroot, hput, branches_put,
      List.findSome?_map, ← List.head?_filterMap, ← List.head?_filterMap]
    refine congrArg List.head? (List.filterMap_congr fun branch hb => ?_)
    by_cases hs : branch.1 = step
    · have hbranch : branch.2 = child := by
        have hat : root.childAt? branch.1 = some branch.2 := hw.childAt?_of_mem_branches hb
        rw [hs, hc] at hat
        exact (Option.some.inj hat).symm
      simp [hs, hbranch, hinner]
    · simp [hs]

/-- Beside a replacement and above it every node keeps its kind. -/
theorem Replaced.kind_eq {result : Node} (h : Replaced root path new next result)
    {turns : List Step} (hp : ¬ path <+: turns) (hn : root.nodeAt? turns = some node) :
    ∃ kept, result.nodeAt? turns = some kept ∧ kept.kind = node.kind := by
  by_cases ht : turns <+: path
  · obtain ⟨rest, he⟩ := ht
    have hrest : rest ≠ [] := by
      rintro rfl
      rw [List.append_nil] at he
      exact hp (he ▸ List.prefix_rfl)
    obtain ⟨before, kept, hbefore, hkept, hkind, _⟩ := h.above turns rest he.symm hrest
    cases hn.symm.trans hbefore
    exact ⟨kept, hkept, hkind⟩
  · exact ⟨node, (h.aside turns hp ht).trans hn, rfl⟩

/-- After a replacement, a place that is not in it has the rule that it had. -/
theorem FirstPlace.exists_place_graft {rule rule' : FieldRule} {content content' : Field Node}
    {target parent' child' : Node} {front' : List Step} {step' : Step}
    (h : root.FirstPlace old front step parent child) (hh : History next nodes) (hr : root ∈ nodes)
    (hw : root.WellFormed) (hold : parent.Holding step child rule content)
    (ha : rule.shape.permits.any (·.admits new) = true) (hn : new ∈ nodes) (hwn : new.WellFormed)
    (hp : pathTo? target (root.graft (front ++ [step]) new (next + ·)) = some (front' ++ [step']))
    (haside : ¬ front ++ [step] <+: front') (hparent : root.nodeAt? front' = some parent')
    (hheld : parent'.Holding step' child' rule' content') : ∃ kept held content,
      (root.graft (front ++ [step]) new (next + ·)).FirstPlace target front' step' kept held ∧
        kept.Holding step' held rule' content := by
  have hwellFormed : (root.graft (front ++ [step]) new (next + ·)).WellFormed :=
    h.wellFormed_graft hw hold ha hwn
  have hleads := h.leads.append_step h.childAt h.foremost
  obtain ⟨more, _, hmore, hgraft⟩ := hleads.history_graft hh hr hn
  obtain ⟨kept, held, hplace⟩ := hwellFormed.exists_firstPlace hmore hgraft hp
  obtain ⟨node, hnode, hkind⟩ :=
    (replaced_graft h.nodeAt?_eq new next).kind_eq haside hparent
  cases hnode.symm.trans hplace.leads.nodeAt?_eq
  obtain ⟨content, hcontent⟩ :=
    hheld.of_kind (hplace.leads.wellFormed hwellFormed) hkind hplace.childAt
  exact ⟨_, held, content, hplace, hcontent⟩

/-- Two nodes of a tree of which neither holds the other, each with a replacement that does not
hold the other one. -/
structure Disjoint (root first firstNew second secondNew : Node) : Prop where
  first_mem : first ∈ root.descendants
  second_mem : second ∈ root.descendants
  first_free : ∀ node ∈ first.descendants, node.same second = false
  second_free : ∀ node ∈ second.descendants, node.same first = false
  firstNew_free : ∀ node ∈ firstNew.descendants, node.same second = false
  secondNew_free : ∀ node ∈ secondNew.descendants, node.same first = false

variable {first firstNew second secondNew : Node}

theorem Disjoint.symm (h : root.Disjoint first firstNew second secondNew) :
    root.Disjoint second secondNew first firstNew :=
  ⟨h.second_mem, h.first_mem, h.second_free, h.first_free, h.secondNew_free, h.firstNew_free⟩

/-- A place of the first node, other than the root, whose field permits its replacement. -/
structure Replaceable (root target new : Node) (front : List Step) (step : Step)
    (parent child : Node) (rule : FieldRule) (content : Field Node) : Prop where
  place : root.FirstPlace target front step parent child
  holding : parent.Holding step child rule content
  permitted : rule.shape.permits.any (·.admits new) = true
  child_eq : child = target

theorem Disjoint.exists_replaceable (h : root.Disjoint first firstNew second secondNew)
    (hh : History next nodes) (hr : root ∈ nodes) (hw : root.WellFormed)
    (hs : ∃ start result after,
      root.replaceWithin first (some firstNew) start = .ok result after) :
    ∃ front step parent child rule content,
      root.Replaceable first firstNew front step parent child rule content := by
  have hfirst : first ∈ nodes := hh.mem_of_mem_descendants hr h.first_mem
  obtain ⟨path, hp⟩ := exists_pathTo?_of_mem h.first_mem
  rcases List.eq_nil_or_concat' path with rfl | ⟨front, step, rfl⟩
  · -- The root is not the node itself, since it holds the other one.
    obtain ⟨node, hleads, hsame⟩ := hw.exists_leads hh hr hp
    cases hleads
    have he : root = first := hh.eq_of_id_eq hr hfirst (by simpa [same] using hsame)
    have hself := h.first_free second (he ▸ h.second_mem)
    rw [same_self] at hself
    cases hself
  · obtain ⟨parent, child, hplace⟩ := hw.exists_firstPlace hh hr hp
    obtain ⟨rule, content, hold⟩ := (hplace.leads.wellFormed hw).exists_holding hplace.childAt
    refine ⟨front, step, parent, child, rule, content, hplace, hold, ?_, ?_⟩
    · obtain ⟨start, result, after, hrun⟩ := hs
      exact hplace.permitted hw hold hrun
    · exact hplace.child_eq hh hr h.first_mem

section Twice

variable {parent' child' : Node} {step' : Step} {front' : List Step} {rule rule' : FieldRule}
  {content content' : Field Node}

theorem Disjoint.not_prefix (h : root.Disjoint first firstNew second secondNew)
    (ha : root.Replaceable first firstNew front step parent child rule content)
    (hb : root.Replaceable second secondNew front' step' parent' child' rule' content') :
    ¬ front ++ [step] <+: front' ++ [step'] := by
  rintro ⟨rest, he⟩
  have hp := hb.place.nodeAt?_eq
  rw [← he, nodeAt?_append, ha.place.nodeAt?_eq, Option.bind_some, ha.child_eq, hb.child_eq] at hp
  have hself := h.first_free second (mem_descendants_of_nodeAt? hp)
  rw [same_self] at hself
  cases hself

/-- After the first node was replaced, the second still has its first place on the same path. -/
theorem Disjoint.pathTo?_graft (h : root.Disjoint first firstNew second secondNew)
    (hh : History next nodes) (hr : root ∈ nodes) (hw : root.WellFormed)
    (ha : root.Replaceable first firstNew front step parent child rule content) :
    pathTo? second (root.graft (front ++ [step]) firstNew (next + ·)) = pathTo? second root := by
  have hsecond : second ∈ nodes := hh.mem_of_mem_descendants hr h.second_mem
  have hleads := ha.place.leads.append_step ha.place.childAt ha.place.foremost
  rw [ha.child_eq] at hleads
  refine hleads.pathTo?_graft hw (next + ·) (fun node depth hid => ?_)
    (pathTo?_eq_none_iff.mpr h.first_free) (pathTo?_eq_none_iff.mpr h.firstNew_free)
    fun node hn hbelow => ?_
  · exact hh.same_eq_false_of_le hsecond (by omega)
  · -- A node above the first that is the second would hold the first.
    by_contra hsame
    have he : node = second := hh.eq_of_id_eq (hh.mem_of_mem_descendants hr hn) hsecond
      (by simpa [same] using hsame)
    have hself := h.second_free first (he ▸ hbelow)
    rw [same_self] at hself
    cases hself

theorem Disjoint.exists_replaceable_graft (h : root.Disjoint first firstNew second secondNew)
    (hh : History next nodes) (hr : root ∈ nodes) (hw : root.WellFormed) (hn : firstNew ∈ nodes)
    (hwn : firstNew.WellFormed)
    (ha : root.Replaceable first firstNew front step parent child rule content)
    (hb : root.Replaceable second secondNew front' step' parent' child' rule' content') :
    ∃ kept held content,
      (root.graft (front ++ [step]) firstNew (next + ·)).FirstPlace second front' step' kept held ∧
        kept.Holding step' held rule' content := by
  have hpath := (h.pathTo?_graft hh hr hw ha).trans hb.place.path
  have haside : ¬ front ++ [step] <+: front' :=
    fun hp => h.not_prefix ha hb (hp.trans (List.prefix_append _ _))
  exact ha.place.exists_place_graft hh hr hw ha.holding ha.permitted hn hwn hpath haside
    hb.place.leads.nodeAt?_eq hb.holding

theorem Disjoint.replaceWithin_twice (h : root.Disjoint first firstNew second secondNew)
    (hh : History next nodes) (hr : root ∈ nodes) (hw : root.WellFormed) (hn : firstNew ∈ nodes)
    (hwn : firstNew.WellFormed)
    (ha : root.Replaceable first firstNew front step parent child rule content)
    (hb : root.Replaceable second secondNew front' step' parent' child' rule' content') :
    ∃ result after,
      (root.replaceWithin first (some firstNew) >>= (·.replaceWithin second (some secondNew))) next =
        .ok result after ∧
      result.erase = (root.erase.graft (front ++ [step]) firstNew.erase fun _ => 0).graft
        (front' ++ [step']) secondNew.erase fun _ => 0 := by
  have hwellFormed : (root.graft (front ++ [step]) firstNew (next + ·)).WellFormed :=
    ha.place.wellFormed_graft hw ha.holding ha.permitted hwn
  obtain ⟨kept, held, content, hplace, hold⟩ := h.exists_replaceable_graft hh hr hw hn hwn ha hb
  rw [Construct.bind_ok (ha.place.replaceWithin_some hw ha.holding ha.permitted),
    hplace.replaceWithin_some hwellFormed hold hb.permitted]
  exact ⟨_, _, rfl, by rw [erase_graft, erase_graft]⟩

end Twice

/-- Deep replacements of two nodes commute when neither holds the other and neither replacement
brings the other in: if each can be made, both can be made in either order, from whatever number
on, with equal results. -/
theorem replaceWithin_comm (hh : History next nodes) {later : Nat} {more : List Node}
    (hlater : History later more) (hsub : nodes ⊆ more) (hr : root ∈ nodes) (hw : root.WellFormed)
    (hfirst : firstNew ∈ nodes) (hwfirst : firstNew.WellFormed) (hsecond : secondNew ∈ nodes)
    (hwsecond : secondNew.WellFormed) (h : root.Disjoint first firstNew second secondNew)
    (hs : ∃ start result after, root.replaceWithin first (some firstNew) start = .ok result after)
    (ht : ∃ start result after,
      root.replaceWithin second (some secondNew) start = .ok result after) :
    ∃ one other after last,
      (root.replaceWithin first (some firstNew) >>= (·.replaceWithin second (some secondNew))) next =
        .ok one after ∧
      (root.replaceWithin second (some secondNew) >>= (·.replaceWithin first (some firstNew))) later =
        .ok other last ∧
      (one == other) = true ∧ one.erase = other.erase := by
  obtain ⟨_, _, _, _, _, _, ha⟩ := h.exists_replaceable hh hr hw hs
  obtain ⟨_, _, _, _, _, _, hb⟩ := h.symm.exists_replaceable hh hr hw ht
  obtain ⟨one, after, hone, heone⟩ := h.replaceWithin_twice hh hr hw hfirst hwfirst ha hb
  obtain ⟨other, last, hother, heother⟩ :=
    h.symm.replaceWithin_twice hlater (hsub hr) hw (hsub hsecond) hwsecond hb ha
  have he : one.erase = other.erase := by
    rw [heone, heother]
    exact graft_comm (h.not_prefix ha hb) (h.symm.not_prefix hb ha)
      (nodeAt?_erase ha.place.nodeAt?_eq) (nodeAt?_erase hb.place.nodeAt?_eq) _ _
  exact ⟨one, other, after, last, hone, hother, equal_of_erase_eq he, he⟩

section Phrase

theorem disjoint_phrase :
    phrase.Disjoint phraseLetter otherLetter phraseMark otherLetter := by
  have hmark : phrase.nodeAt? [⟨"segments", some 1⟩] = some phraseMark := rfl
  refine ⟨phraseLetter_mem_descendants, mem_descendants_of_nodeAt? hmark, ?_, ?_, ?_, ?_⟩ <;>
    decide +kernel

/-- The letter and the mark are replaced in either order. -/
theorem replaceWithin_comm_phrase :
    History 5 phraseNodes ∧ phrase.Disjoint phraseLetter otherLetter phraseMark otherLetter ∧
      ∃ one other after last,
        (phrase.replaceWithin phraseLetter (some otherLetter) >>=
          (·.replaceWithin phraseMark (some otherLetter))) 5 = .ok one after ∧
        (phrase.replaceWithin phraseMark (some otherLetter) >>=
          (·.replaceWithin phraseLetter (some otherLetter))) 5 = .ok other last ∧
        (one == other) = true ∧ one.erase = other.erase := by
  have hletter : phrase.replaceWithin phraseLetter (some otherLetter) 5 =
      .ok (phrase.graft [⟨"segments", some 0⟩, ⟨"segments", some 0⟩] otherLetter (5 + ·)) 7 := by
    simp only [replaceWithin, rebuild, pathTo?_phraseLetter]
    rfl
  have hmark : phrase.replaceWithin phraseMark (some otherLetter) 5 =
      .ok (phrase.graft [⟨"segments", some 1⟩] otherLetter (5 + ·)) 6 := by
    simp only [replaceWithin, rebuild, pathTo?_phraseMark]
    rfl
  have hother : otherLetter ∈ phraseNodes := by simp [phraseNodes]
  exact ⟨history_phraseNodes, disjoint_phrase,
    replaceWithin_comm history_phraseNodes history_phraseNodes (List.Subset.refl _)
      phrase_mem_phraseNodes wellFormed_phrase hother (.token ..) hother (.token ..)
      disjoint_phrase ⟨5, _, 7, hletter⟩ ⟨5, _, 6, hmark⟩⟩

end Phrase

end ProgramTree.Node
