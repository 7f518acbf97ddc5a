import ProgramTree.Proofs.SpineEdits

namespace ProgramTree

/-- A field of a node in a tree, and a step into it. -/
structure Holder where
  parent : Node
  step : Step
  rule : FieldRule

namespace Node

/-- The field that the last step of a path leads into. -/
def holder? (root : Node) (path : List Step) : Option Holder := do
  let step ← path.getLast?
  let parent ← root.nodeAt? path.dropLast
  let rule ← parent.kind.rule? step.field
  return ⟨parent, step, rule⟩

variable {root target parent child new : Node} {step : Step} {front : List Step}
  {rule : FieldRule} {content : Field Node} {next : Nat} {nodes : List Node}

@[simp]
theorem holder?_nil : root.holder? [] = none := rfl

namespace FirstPlace

theorem holder?_eq (h : root.FirstPlace target front step parent child)
    (hh : parent.Holding step child rule content) :
    root.holder? (front ++ [step]) = some ⟨parent, step, rule⟩ := by
  simp [holder?, h.leads.nodeAt?_eq, hh.rule?_eq]

theorem nodeAt?_eq (h : root.FirstPlace target front step parent child) :
    root.nodeAt? (front ++ [step]) = some child := by
  rw [nodeAt?_append, h.leads.nodeAt?_eq, Option.bind_some, nodeAt?_cons, h.childAt]
  rfl

theorem graft_put (h : root.FirstPlace target front step parent child) (new : Node) (next : Nat) :
    root.graft front (parent.put step new next) (next + 1 + ·) =
      root.graft (front ++ [step]) new (next + ·) := by
  have hlast : parent.graft [step] new (next + ·) = parent.put step new next := by
    rw [graft_cons h.childAt]
    rfl
  have hnumber : (next + 1 + ·) = fun depth => next + (depth + [step].length) := by
    funext depth
    rw [List.length_singleton]
    omega
  rw [← hlast, hnumber]
  exact graft_append h.leads.nodeAt?_eq

/-- A permitted node is grafted onto the place, one new node for each step of the path. -/
theorem replaceWithin_some (h : root.FirstPlace target front step parent child)
    (hw : root.WellFormed) (hh : parent.Holding step child rule content)
    (ha : rule.shape.permits.any (·.admits new) = true) :
    root.replaceWithin target (some new) next =
      .ok (root.graft (front ++ [step]) new (next + ·)) (next + (front ++ [step]).length) := by
  have hreplace := (h.leads.wellFormed hw).replace_child hh h.foremost h.same new next
  rw [if_pos ha] at hreplace
  rw [h.replaceWithin_ok hw hreplace, h.graft_put, List.length_append, List.length_singleton,
    Nat.add_assoc, Nat.add_comm 1]

theorem wellFormed_graft (h : root.FirstPlace target front step parent child)
    (hw : root.WellFormed) (hh : parent.Holding step child rule content)
    (ha : rule.shape.permits.any (·.admits new) = true) (hn : new.WellFormed) :
    (root.graft (front ++ [step]) new (next + ·)).WellFormed := by
  rw [← h.graft_put]
  have hput := (h.leads.wellFormed hw).put hh (List.any_eq_true.mp ha) hn next
  exact h.leads.wellFormed_graft hw _ hput rfl (symbol?_of_childAt? h.childAt).symm

theorem replaceWithin_some_error (h : root.FirstPlace target front step parent child)
    (hw : root.WellFormed) (hh : parent.Holding step child rule content)
    (hn : rule.shape.permits.any (·.admits new) = false) :
    root.replaceWithin target (some new) next =
      .error (.shape (.notPermitted parent.kind step.field rule.shape.permits (.ofNode new)))
        next := by
  have hreplace := (h.leads.wellFormed hw).replace_child hh h.foremost h.same new next
  rw [if_neg (by simp [hn])] at hreplace
  exact h.replaceWithin_error hw hreplace

theorem permitted {result : Node} {after : Nat}
    (h : root.FirstPlace target front step parent child) (hw : root.WellFormed)
    (hh : parent.Holding step child rule content)
    (he : root.replaceWithin target (some new) next = .ok result after) :
    rule.shape.permits.any (·.admits new) = true := by
  by_contra hn
  rw [h.replaceWithin_some_error hw hh (Bool.not_eq_true _ ▸ hn)] at he
  cases he

end FirstPlace

/-- What becomes of replacing the node at the end of a path. The only fault is a field that does
not permit the replacement, and one node is made for each step of the path. -/
structure ReplacementOutcome (root : Node) (path : List Step) (new : Node) (next : Nat)
    (outcome : EStateM.Result EditError Nat Node) : Prop where
  answered_iff : (∃ result after, outcome = .ok result after) ↔
    path = [] ∨ ∃ holder ∈ root.holder? path,
      ∃ permit ∈ holder.rule.shape.permits, permit.admits new = true
  refused : ∀ error after, outcome = .error error after → ∃ holder ∈ root.holder? path,
    error = .shape (.notPermitted holder.parent.kind holder.step.field holder.rule.shape.permits
      (.ofNode new))
  answered : ∀ result after, outcome = .ok result after →
    after = next + path.length ∧ Replaced root path new next result

theorem replacementOutcome (hh : History next nodes) (hr : root ∈ nodes) (hw : root.WellFormed)
    {path : List Step} (hp : pathTo? target root = some path) (new : Node) :
    ReplacementOutcome root path new next (root.replaceWithin target (some new) next) := by
  rcases List.eq_nil_or_concat' path with rfl | ⟨front, step, rfl⟩
  · have hrun := replaceWithin_of_nil hp (some new) next
    simp only at hrun
    rw [hrun]
    refine ⟨by simp, fun _ _ he => (nomatch he), fun result after he => ?_⟩
    cases he
    exact ⟨rfl, replaced_graft nodeAt?_nil new next⟩
  · obtain ⟨parent, child, h⟩ := hw.exists_firstPlace hh hr hp
    obtain ⟨rule, content, hold⟩ := (h.leads.wellFormed hw).exists_holding h.childAt
    have hholder := h.holder?_eq hold
    cases ha : rule.shape.permits.any (·.admits new) with
    | true =>
      rw [h.replaceWithin_some hw hold ha]
      refine ⟨?_, fun _ _ he => (nomatch he), fun result after he => ?_⟩
      · have hpermit := List.any_eq_true.mp ha
        simpa [hholder] using hpermit
      · cases he
        exact ⟨rfl, replaced_graft h.nodeAt?_eq new next⟩
    | false =>
      rw [h.replaceWithin_some_error hw hold ha]
      refine ⟨?_, fun error after he => ?_, fun _ _ he => (nomatch he)⟩
      · have hpermit := List.any_eq_false.mp ha
        simpa [hholder] using hpermit
      · cases he
        exact ⟨_, hholder, rfl⟩

/-- Replacing a node in a tree fails with `notInTree` when the tree does not hold it. Otherwise its
first occurrence is replaced, if the field there permits it. -/
theorem replaceWithin_replaced (hh : History next nodes) (hr : root ∈ nodes) (hw : root.WellFormed)
    (target new : Node) :
    ((∃ after, root.replaceWithin target (some new) next = .error .notInTree after) ↔
      ∀ node ∈ root.descendants, node.same target = false) ∧
    ∀ place ∈ root.occurrences.find? (·.node.same target),
      ReplacementOutcome root place.path new next
        (root.replaceWithin target (some new) next) := by
  refine ⟨⟨fun ⟨after, he⟩ => ?_, fun h => ⟨next, ?_⟩⟩, fun place hm => ?_⟩
  · rw [← pathTo?_eq_none_iff, ← Option.not_isSome_iff_eq_none]
    intro hsome
    obtain ⟨path, hp⟩ := Option.isSome_iff_exists.mp hsome
    obtain ⟨_, _, herror⟩ := (replacementOutcome hh hr hw hp new).refused _ after he
    cases herror
  · exact replaceWithin_of_none (pathTo?_eq_none_iff.mpr h) (some new) next
  · exact replacementOutcome hh hr hw (pathTo?_of_find? hm) new

section Phrase

/-- Words that hold one letter at two places, with a mark between them. -/
def phraseLetter : Node :=
  .token 0 .words "a"

def phraseWord : Node :=
  .tree 1 .words
    [("open", .optional none), ("segments", .list [phraseLetter]), ("close", .optional none)]

def phraseMark : Node :=
  .token 2 .words "-"

def phrase : Node :=
  .tree 3 .words
    [("open", .optional none), ("segments", .list [phraseWord, phraseMark, phraseWord]),
     ("close", .optional none)]

def otherLetter : Node :=
  .token 4 .words "b"

def phraseNodes : List Node :=
  [otherLetter, phrase, phraseMark, phraseWord, phraseLetter]

theorem history_phraseNodes : History 5 phraseNodes := by
  refine .construct (.construct (.construct (.construct (.construct .start rfl ?_) rfl ?_) rfl ?_)
    rfl ?_) rfl ?_
  all_goals simp [phraseLetter, phraseWord, phraseMark, phrase, otherLetter, children, fields,
    Field.nodes]

theorem phrase_mem_phraseNodes : phrase ∈ phraseNodes := by
  simp [phraseNodes]

theorem wellFormed_phrase : phrase.WellFormed := by
  decide +kernel

theorem pathTo?_phraseLetter :
    pathTo? phraseLetter phrase = some [⟨"segments", some 0⟩, ⟨"segments", some 0⟩] := by
  decide +kernel

theorem phraseLetter_mem_descendants : phraseLetter ∈ phrase.descendants := by
  have hplace : phrase.nodeAt? [⟨"segments", some 0⟩, ⟨"segments", some 0⟩] = some phraseLetter :=
    rfl
  exact mem_descendants_of_nodeAt? hplace

theorem pathTo?_phraseMark : pathTo? phraseMark phrase = some [⟨"segments", some 1⟩] := by
  decide +kernel

/-- The letter is replaced at the first of its places only. -/
theorem replaceWithin_replaced_phrase :
    History 5 phraseNodes ∧ phrase ∈ phraseNodes ∧ phrase.WellFormed ∧
      ∃ result, phrase.replaceWithin phraseLetter (some otherLetter) 5 = .ok result 7 ∧
        Replaced phrase [⟨"segments", some 0⟩, ⟨"segments", some 0⟩] otherLetter 5 result := by
  have hpath := pathTo?_phraseLetter
  rw [pathTo?_eq_find?] at hpath
  obtain ⟨place, hplace, hp⟩ := Option.map_eq_some_iff.mp hpath
  have houtcome := (replaceWithin_replaced history_phraseNodes phrase_mem_phraseNodes
    wellFormed_phrase phraseLetter otherLetter).2 place hplace
  rw [hp] at houtcome
  have hholder : ∃ holder ∈ phrase.holder? [⟨"segments", some 0⟩, ⟨"segments", some 0⟩],
      ∃ permit ∈ holder.rule.shape.permits, permit.admits otherLetter = true :=
    ⟨_, rfl, .symbol .words, by decide, rfl⟩
  obtain ⟨result, after, hrun⟩ := houtcome.answered_iff.mpr (.inr hholder)
  obtain ⟨rfl, hreplaced⟩ := houtcome.answered result after hrun
  exact ⟨history_phraseNodes, phrase_mem_phraseNodes, wellFormed_phrase, result, hrun, hreplaced⟩

end Phrase

end Node

end ProgramTree
