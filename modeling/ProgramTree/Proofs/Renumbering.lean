import ProgramTree.Proofs.Erasure
import ProgramTree.Proofs.FieldOutcomes
import ProgramTree.Proofs.SpineEdits

namespace ProgramTree

theorem Fields.put_assign (name : String) (old new : Node) (fields : Fields) :
    (assign name (.optional (some old)) fields).put ⟨name, none⟩ new =
      assign name (.optional (some new)) fields := by
  rw [put, assign, assign, List.map_map]
  refine List.map_congr_left ?_
  rintro ⟨other, content⟩ -
  by_cases hn : other = name <;> simp [hn, Field.put]

namespace Node

/-- Two trees of the same content that have every node made before a number at the same places. -/
structure AlikeSince (a : Node) (bound : Nat) (b : Node) : Prop extends a.Alike b where
  shared : ∀ path node, node.id < bound →
    (a.nodeAt? path = some node ↔ b.nodeAt? path = some node)

/-- Two runs that fail with one error, or answer alike but for the numbers drawn from a number
on. -/
inductive RunsAgree (bound : Nat) :
    EStateM.Result EditError Nat Node → EStateM.Result EditError Nat Node → Prop
  | answered {result other : Node} {after last : Nat} (h : result.AlikeSince bound other) :
      RunsAgree bound (.ok result after) (.ok other last)
  | failed (error : EditError) (after last : Nat) :
      RunsAgree bound (.error error after) (.error error last)

variable {a b node root target : Node} {step : Step} {path : List Step}
  {bound early late start later : Nat}

namespace AlikeSince

theorem refl (node : Node) (bound : Nat) : node.AlikeSince bound node :=
  ⟨.of_erase_eq rfl, fun _ _ _ => Iff.rfl⟩

/-- Two nodes made later are alike when their children are. -/
theorem of_children (he : a.erase = b.erase) (ha : bound ≤ a.id) (hb : bound ≤ b.id)
    (hc : ∀ step, a.childAt? step = b.childAt? step ∨ ∃ c d, a.childAt? step = some c ∧
      b.childAt? step = some d ∧ c.AlikeSince bound d) : a.AlikeSince bound b := by
  refine ⟨.of_erase_eq he, fun path node hn => ?_⟩
  cases path with
  | nil =>
    -- Neither root is an older node.
    have hne : ∀ made : Node, bound ≤ made.id → made.nodeAt? [] ≠ some node := by
      rintro made hm ⟨⟩
      omega
    exact iff_of_false (hne a ha) (hne b hb)
  | cons step path =>
    rw [nodeAt?_cons, nodeAt?_cons]
    rcases hc step with heq | ⟨c, d, hac, hbd, h⟩
    · rw [heq]
    · rw [hac, hbd]
      exact h.shared path node hn

theorem tree (kind : Kind) (fields : Fields) (he : bound ≤ early) (hl : bound ≤ late) :
    (Node.tree early kind fields).AlikeSince bound (.tree late kind fields) :=
  of_children rfl he hl fun _ => .inl rfl

theorem token (symbol : Symbol) (text : String) (he : bound ≤ early) (hl : bound ≤ late) :
    (Node.token early symbol text).AlikeSince bound (.token late symbol text) :=
  of_children rfl he hl fun _ => .inl rfl

theorem put (h : a.AlikeSince bound b) (node : Node) (step : Step) (he : bound ≤ early)
    (hl : bound ≤ late) : (node.put step a early).AlikeSince bound (node.put step b late) := by
  refine of_children (by rw [erase_put, erase_put, h.content]) he hl fun turn => ?_
  by_cases hs : step = turn
  · subst hs
    cases hc : node.childAt? step with
    | none => simp [childAt?_put_self, hc]
    | some => exact .inr ⟨a, b, childAt?_put_of_some hc, childAt?_put_of_some hc, h⟩
  · exact .inl (by rw [childAt?_put_of_ne hs, childAt?_put_of_ne hs])

theorem graft (h : a.AlikeSince bound b) (root : Node) (path : List Step) {first second : Nat → Nat}
    (hf : ∀ depth, bound ≤ first depth) (hs : ∀ depth, bound ≤ second depth) :
    (root.graft path a first).AlikeSince bound (root.graft path b second) := by
  induction path generalizing root with
  | nil => exact h
  | cons step path ih =>
    cases hc : root.childAt? step with
    | none =>
      rw [Node.graft, Node.graft, hc]
      exact refl root bound
    | some child =>
      rw [graft_cons hc, graft_cons hc]
      exact (ih child).put root step (hf _) (hs _)

theorem assign (h : a.AlikeSince bound b) (kind : Kind) (name : String) (fields : Fields)
    (he : bound ≤ early) (hl : bound ≤ late) :
    (Node.tree early kind (Fields.assign name (.optional (some a)) fields)).AlikeSince bound
      (.tree late kind (Fields.assign name (.optional (some b)) fields)) := by
  have hput := h.put (.tree early kind (Fields.assign name (.optional (some a)) fields))
    ⟨name, none⟩ he hl
  rwa [Node.put, Node.put, Node.fields, Fields.put_assign, Fields.put_assign] at hput

end AlikeSince

variable {name : String} {edit : Edit} {result : Node} {after : Nat}

namespace RunsAgree

variable {first second : EStateM.Result EditError Nat Node}

theorem exists_ok (h : RunsAgree bound first second) (he : first = .ok result after) :
    ∃ other last, second = .ok other last ∧ result.AlikeSince bound other := by
  cases h with
  | answered h =>
    cases he
    exact ⟨_, _, rfl, h⟩
  | failed => cases he

theorem exists_error (h : RunsAgree bound first second) {error : EditError}
    (he : first = .error error after) : ∃ last, second = .error error last := by
  cases h with
  | answered => cases he
  | failed =>
    cases he
    exact ⟨_, rfl⟩

end RunsAgree

/-- The token that stands in for a half is the same from any number on, but for its number. -/
theorem exists_standsFor_alike {rule : FieldRule} {present stand : Node}
    (h : rule.StandsFor present start stand) (hs : bound ≤ start) (hl : bound ≤ later) :
    ∃ other, rule.StandsFor present later other ∧ stand.AlikeSince bound other := by
  cases h with
  | intro hp ht => exact ⟨_, .intro hp ht, .token _ _ hs hl⟩

theorem Edited.le (h : node.Edited name edit start result after) : start ≤ after := by
  cases h <;> omega

/-- An edit of one field can be made from another number on. -/
theorem Edited.exists_alike (h : node.Edited name edit start result after) (hs : bound ≤ start)
    (hl : bound ≤ later) : ∃ other last, node.Edited name edit later other last ∧
      result.AlikeSince bound other := by
  cases h with
  | plain hr hf hp ha hk => exact ⟨_, _, .plain hr hf hp ha hk, .tree _ _ hs hl⟩
  | released hr hpair hf hp => exact ⟨_, _, .released hr hpair hf hp, .tree _ _ hs hl⟩
  | restored hr hpair hf hp hh ht =>
    obtain ⟨other, hother, halike⟩ := exists_standsFor_alike ht hs hl
    exact ⟨_, _, .restored hr hpair hf hp hh hother,
      halike.assign _ _ _ (Nat.le_succ_of_le hs) (Nat.le_succ_of_le hl)⟩
  | completed hr hpair hh hf hp ha ht =>
    obtain ⟨other, hother, halike⟩ := exists_standsFor_alike ht hs hl
    exact ⟨_, _, .completed hr hpair hh hf hp ha hother,
      halike.assign _ _ _ (Nat.le_succ_of_le hs) (Nat.le_succ_of_le hl)⟩

namespace WellFormed

/-- Editing a field comes to the same from any number on. -/
theorem replace_agree (h : node.WellFormed) (name : String) (edit : Edit) (hs : bound ≤ start)
    (hl : bound ≤ later) :
    RunsAgree bound (node.replace name edit start) (node.replace name edit later) := by
  rcases h.edited_or_refuses name edit start with ⟨result, after, he⟩ | ⟨error, he⟩
  · obtain ⟨other, last, hother, halike⟩ := he.exists_alike hs hl
    rw [h.replace_edited he, h.replace_edited hother]
    exact .answered halike
  · obtain ⟨after, hafter⟩ := h.replace_refuses he start
    obtain ⟨last, hlast⟩ := h.replace_refuses he later
    rw [hafter, hlast]
    exact .failed error after last

theorem le_of_replace (h : node.WellFormed) (he : node.replace name edit start = .ok result after) :
    start ≤ after :=
  (h.replace_eq_ok_iff.mp he).le

/-- Replacing a node deep in a tree comes to the same from any number on. -/
theorem replaceWithin_agree (h : root.WellFormed) {nodes : List Node} (hh : History bound nodes)
    (hr : root ∈ nodes) (target : Node) (replacement : Option Node) (hs : bound ≤ start)
    (hl : bound ≤ later) :
    RunsAgree bound (root.replaceWithin target replacement start)
      (root.replaceWithin target replacement later) := by
  cases hp : pathTo? target root with
  | none =>
    rw [replaceWithin_of_none hp, replaceWithin_of_none hp]
    exact .failed ..
  | some path =>
    rcases List.eq_nil_or_concat' path with rfl | ⟨front, step, rfl⟩
    · rw [replaceWithin_of_nil hp, replaceWithin_of_nil hp]
      cases replacement with
      | none => exact .failed ..
      | some new => exact .answered (.refl new bound)
    · obtain ⟨parent, child, hplace⟩ := h.exists_firstPlace hh hr hp
      have hparent := hplace.leads.wellFormed h
      have hagree := hparent.replace_agree step.field (.child (some target) replacement) hs hl
      cases hstart : parent.replace step.field (.child (some target) replacement) start with
      | error error after =>
        obtain ⟨last, hlater⟩ := hagree.exists_error hstart
        rw [hplace.replaceWithin_error h hstart, hplace.replaceWithin_error h hlater]
        exact .failed error after last
      | ok edited after =>
        obtain ⟨other, last, hlater, halike⟩ := hagree.exists_ok hstart
        have hafter := hparent.le_of_replace hstart
        have hlast := hparent.le_of_replace hlater
        rw [hplace.replaceWithin_ok h hstart, hplace.replaceWithin_ok h hlater]
        exact .answered (halike.graft root front (fun _ => by omega) fun _ => by omega)

end WellFormed

end Node

end ProgramTree
