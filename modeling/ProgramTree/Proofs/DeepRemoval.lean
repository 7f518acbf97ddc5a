import ProgramTree.Proofs.Counts
import ProgramTree.Proofs.DeepReplacement

namespace ProgramTree

/-- The field always holds a node. -/
def Holder.Single (holder : Holder) : Prop :=
  ∃ permits, holder.rule.shape = .one permits

/-- The field is a list that is never empty, and has one element left. -/
def Holder.Last (holder : Holder) : Prop :=
  (∃ permits, holder.rule.shape = .list true permits) ∧
    (holder.parent.elements holder.step.field).length = 1

namespace Node

/-- What becomes of removing a node from the end of the path to its first place. On success the
node that held it has become another, which was put into the tree in its stead. -/
structure RemovalOutcome (root target : Node) (path : List Step) (next : Nat)
    (outcome : EStateM.Result EditError Nat Node) : Prop where
  removeRoot_iff : (∃ after, outcome = .error .removeRoot after) ↔ path = []
  missing_iff : ∀ kind field, (∃ after, outcome = .error (.shape (.missing kind field)) after) ↔
    ∃ holder ∈ root.holder? path,
      holder.Single ∧ holder.parent.kind = kind ∧ holder.step.field = field
  emptyList_iff : ∀ kind field,
    (∃ after, outcome = .error (.shape (.emptyList kind field)) after) ↔
      ∃ holder ∈ root.holder? path,
        holder.Last ∧ holder.parent.kind = kind ∧ holder.step.field = field
  answered_iff : (∃ result after, outcome = .ok result after) ↔
    path ≠ [] ∧ ∀ holder ∈ root.holder? path, ¬ holder.Single ∧ ¬ holder.Last
  answered : ∀ result after, outcome = .ok result after → ∃ holder ∈ root.holder? path,
    ∃ trimmed middle, holder.parent.Removed holder.step next trimmed middle ∧
      Replaced root path.dropLast trimmed middle result ∧
      after = middle + path.dropLast.length
  gone : root.descendants.countP (·.same target) = 1 → ∀ result after,
    outcome = .ok result after → ∀ node ∈ result.descendants, node.same target = false

variable {root target parent child : Node} {step : Step} {front : List Step}
  {rule : FieldRule} {content : Field Node} {next : Nat} {nodes : List Node}

theorem Removed.id_add_one {trimmed : Node} {after : Nat}
    (h : parent.Removed step next trimmed after) : trimmed.id + 1 = after ∧ next < after := by
  cases h <;> simp [id]

namespace RemovalOutcome

variable {path : List Step} {holder : Holder}

theorem of_root : RemovalOutcome root target [] next (.error .removeRoot next) :=
  ⟨by simp, by simp, by simp, by simp, by simp, by simp⟩

theorem of_single (hh : root.holder? path = some holder) (hs : holder.Single) :
    RemovalOutcome root target path next
      (.error (.shape (.missing holder.parent.kind holder.step.field)) next) := by
  have hne : path ≠ [] := by
    rintro rfl
    cases hh
  have hlast : ¬ holder.Last := by
    rintro ⟨⟨permits, hl⟩, _⟩
    obtain ⟨_, hs⟩ := hs
    rw [hs] at hl
    cases hl
  exact ⟨by simp [hne], by simp [hh, hs], by simp [hh, hlast], by simp [hh, hs], by simp, by simp⟩

theorem of_last (hh : root.holder? path = some holder) (hl : holder.Last) :
    RemovalOutcome root target path next
      (.error (.shape (.emptyList holder.parent.kind holder.step.field)) next) := by
  have hne : path ≠ [] := by
    rintro rfl
    cases hh
  have hsingle : ¬ holder.Single := by
    rintro ⟨permits, hs⟩
    obtain ⟨⟨_, hl⟩, _⟩ := hl
    rw [hs] at hl
    cases hl
  exact ⟨by simp [hne], by simp [hh, hsingle], by simp [hh, hl], by simp [hh, hl], by simp, by simp⟩

end RemovalOutcome

/-- Taking the only occurrence of a node out of the node that holds it leaves none in the tree. -/
theorem FirstPlace.countP_graft_eq_zero (h : root.FirstPlace target front step parent child)
    (hw : root.WellFormed) (hid : target.id < next) {trimmed : Node} {middle : Nat}
    (ht : parent.Removed step next trimmed middle)
    (hone : root.descendants.countP (·.same target) = 1) :
    (root.graft front trimmed (middle + ·)).descendants.countP (·.same target) = 0 := by
  have hbound := ht.id_add_one
  have hfresh : ∀ node : Node, next ≤ node.id → node.same target = false := by
    intro node hn
    have hne : node.id ≠ target.id := by omega
    simpa [Node.same] using hne
  have hgraft := h.leads.countP_graft (p := (·.same target)) hw (middle + ·)
    (fun node depth hn => hfresh node (by omega)) trimmed
  have htotal := ht.total_le (fun node => node.descendants.countP (·.same target))
    (h.leads.wellFormed hw) h.childAt fun symbol text => by
      rw [countP_descendants]
      simp [hfresh (.token next symbol text) (by simp [id]), children, fields]
  have hchild : 0 < child.descendants.countP (·.same target) :=
    List.countP_pos_iff.mpr ⟨child, child.mem_descendants_self, same_comm child target ▸ h.same⟩
  have htrimmed := countP_descendants (·.same target) trimmed
  rw [hfresh trimmed (by omega)] at htrimmed
  have hparent := countP_descendants (·.same target) parent
  simp only [Bool.false_eq_true, if_false] at htrimmed
  omega

theorem removalOutcome (hh : History next nodes) (hr : root ∈ nodes) (hw : root.WellFormed)
    {path : List Step} (hp : pathTo? target root = some path) :
    RemovalOutcome root target path next (root.replaceWithin target none next) := by
  rcases List.eq_nil_or_concat' path with rfl | ⟨front, step, rfl⟩
  · rw [replaceWithin_of_nil hp none next]
    exact .of_root
  · obtain ⟨parent, child, h⟩ := hw.exists_firstPlace hh hr hp
    have hparent := h.leads.wellFormed hw
    obtain ⟨rule, content, hold⟩ := hparent.exists_holding h.childAt
    have hholder := h.holder?_eq hold
    by_cases hsingle : (Holder.mk parent step rule).Single
    · obtain ⟨permits, hs⟩ := hsingle
      rw [h.replaceWithin_error hw (hold.remove_single hs h.same)]
      exact .of_single hholder ⟨permits, hs⟩
    by_cases hlast : (Holder.mk parent step rule).Last
    · obtain ⟨⟨permits, hl⟩, hlen⟩ := hlast
      rw [h.replaceWithin_error hw (hparent.remove_last hold h.foremost h.same hl hlen)]
      exact .of_last hholder ⟨⟨permits, hl⟩, hlen⟩
    obtain ⟨trimmed, middle, hreplace, hremoved⟩ := hparent.remove_child hold h.foremost h.same
      (fun permits hs => hsingle ⟨permits, hs⟩) fun permits hl hlen => hlast ⟨⟨permits, hl⟩, hlen⟩
    rw [h.replaceWithin_ok hw hreplace]
    refine ⟨by simp, by simp [hholder, hsingle], by simp [hholder, hlast],
      by simp [hholder, hsingle, hlast], fun result after he => ?_, fun hone result after he => ?_⟩
    · cases he
      refine ⟨_, hholder, trimmed, middle, hremoved, ?_, by simp⟩
      rw [List.dropLast_concat]
      exact replaced_graft h.leads.nodeAt?_eq trimmed middle
    · cases he
      have hchild : child ∈ nodes :=
        hh.mem_of_mem_children (h.leads.mem hh hr)
          (mem_children_of_childAt? h.childAt)
      have hsame : target.id = child.id := by simpa [Node.same] using h.same
      have hid : target.id < next := hsame ▸ hh.id_lt hchild
      have hzero := h.countP_graft_eq_zero hw hid hremoved hone
      simpa using List.countP_eq_zero.mp hzero

/-- Removing a node from a tree takes it out of the field of its first occurrence, unless it is the
root or the field must hold it. -/
theorem replaceWithin_removed (hh : History next nodes) (hr : root ∈ nodes) (hw : root.WellFormed)
    {place : Occurrence} (hp : root.occurrences.find? (·.node.same target) = some place) :
    RemovalOutcome root target place.path next (root.replaceWithin target none next) :=
  removalOutcome hh hr hw (pathTo?_of_find? hp)

/-- The mark is taken out from between the words, and the phrase has no other. -/
theorem replaceWithin_removed_phrase :
    History 5 phraseNodes ∧ phrase ∈ phraseNodes ∧ phrase.WellFormed ∧
      ∃ place, phrase.occurrences.find? (·.node.same phraseMark) = some place ∧
        ∃ result after, phrase.replaceWithin phraseMark none 5 = .ok result after ∧
          ∀ node ∈ result.descendants, node.same phraseMark = false := by
  have hpath := pathTo?_phraseMark
  rw [pathTo?_eq_find?] at hpath
  obtain ⟨place, hplace, hp⟩ := Option.map_eq_some_iff.mp hpath
  have houtcome := replaceWithin_removed history_phraseNodes phrase_mem_phraseNodes
    wellFormed_phrase hplace
  rw [hp] at houtcome
  have hholder : phrase.holder? [⟨"segments", some 1⟩] =
      some ⟨phrase, ⟨"segments", some 1⟩,
        .nonEmptyList "segments" [.kind .words, .symbol .words, .kind .reference]⟩ := rfl
  have hfree : ∀ holder ∈ phrase.holder? [⟨"segments", some 1⟩],
      ¬ holder.Single ∧ ¬ holder.Last := by
    rw [hholder]
    rintro _ ⟨⟩
    refine ⟨fun ⟨_, hs⟩ => ?_, fun ⟨_, hl⟩ => ?_⟩
    · cases hs
    · cases hl
  have hone : phrase.descendants.countP (·.same phraseMark) = 1 := by decide +kernel
  obtain ⟨result, after, hrun⟩ := houtcome.answered_iff.mpr ⟨by simp, hfree⟩
  exact ⟨history_phraseNodes, phrase_mem_phraseNodes, wellFormed_phrase, place, hplace, result,
    after, hrun, houtcome.gone hone result after hrun⟩

end Node

end ProgramTree
