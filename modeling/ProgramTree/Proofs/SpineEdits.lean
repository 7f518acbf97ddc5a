import ProgramTree.DeepEdit
import ProgramTree.Proofs.FirstPlaces
import ProgramTree.Proofs.MappedFields

namespace ProgramTree

theorem Construct.exists_of_bind_ok {ε α β : Type} {make : Construct ε α}
    {then' : α → Construct ε β} {next after : Nat} {b : β}
    (h : (make >>= then') next = .ok b after) :
    ∃ a middle, make next = .ok a middle ∧ then' a middle = .ok b after := by
  cases hm : make next with
  | ok a middle =>
    rw [bind_ok hm] at h
    exact ⟨a, middle, rfl, h⟩
  | error error middle =>
    rw [bind_error hm] at h
    cases h

namespace Node

variable {root target parent child node : Node} {step : Step} {path front rest : List Step}

theorem symbol?_of_childAt? (h : node.childAt? step = some child) : node.symbol? = none := by
  cases node with
  | token => simp [childAt?_eq, field?, fields] at h
  | tree => rfl

/-- A field that holds a node permits every node that is like it in kind. -/
theorem Holding.admits_alike {rule : FieldRule} {content : Field Node}
    (h : node.Holding step child rule content) {other : Node} (hk : other.kind = child.kind)
    (hs : other.symbol? = child.symbol?) :
    ∃ permit ∈ rule.shape.permits, permit.admits other = true := by
  obtain ⟨permit, hp, ha⟩ := h.allows.admitted child h.mem_nodes
  exact ⟨permit, hp, (permit.admits_congr hk hs).trans ha⟩

/-- The same place of another node of the kind has the same rule. -/
theorem Holding.of_kind {rule : FieldRule} {content : Field Node}
    (h : parent.Holding step child rule content) (hw : node.WellFormed)
    (hk : node.kind = parent.kind) {held : Node} (hc : node.childAt? step = some held) :
    ∃ content, node.Holding step held rule content := by
  obtain ⟨other, content, hh⟩ := hw.exists_holding hc
  have hrule := hh.rule?_eq
  rw [hk, h.rule?_eq] at hrule
  cases hrule
  exact ⟨content, hh⟩

/-- The answer of an edit was assembled from fields. -/
theorem exists_assemble_of_replace {name : String} {edit : Edit} {result : Node} {next after : Nat}
    (h : node.replace name edit next = .ok result after) :
    ∃ fields middle, node.kind.assemble fields middle = .ok result after := by
  cases hf : node.field? name with
  | none =>
    rw [replace_unknown hf] at h
    cases h
  | some content =>
    cases he : content.edit node.kind name edit with
    | error error =>
      rw [replace_eq_error hf he] at h
      cases h
    | ok edited =>
      rw [replace_eq hf he] at h
      obtain ⟨completed, middle, _, h⟩ := Construct.exists_of_bind_ok h
      exact ⟨completed, middle, h⟩

/-- The answer of an edit is a tree of the kind that was edited. -/
theorem kind_of_replace {name : String} {edit : Edit} {result : Node} {next after : Nat}
    (h : node.replace name edit next = .ok result after) :
    result.kind = node.kind ∧ result.symbol? = none := by
  obtain ⟨fields, middle, h⟩ := exists_assemble_of_replace h
  obtain ⟨arranged, _, _, h⟩ := Construct.exists_of_bind_ok h
  obtain ⟨_, _, _, h⟩ := Construct.exists_of_bind_ok h
  cases h
  exact ⟨rfl, rfl⟩

theorem spine?_append {above below : List (Node × Step)} (hn : root.nodeAt? front = some node)
    (ha : root.spine? front = some above) (hb : node.spine? rest = some below) :
    root.spine? (front ++ rest) = some (above ++ below) := by
  induction front generalizing root above with
  | nil =>
    cases hn
    cases ha
    exact hb
  | cons step front ih =>
    rw [nodeAt?_cons] at hn
    obtain ⟨child, hc, hn⟩ := Option.bind_eq_some_iff.mp hn
    simp only [spine?, hc, Option.bind_eq_bind, Option.bind_some] at ha
    obtain ⟨inner, hi, ha⟩ := Option.bind_eq_some_iff.mp ha
    cases ha
    rw [List.cons_append, spine?, hc]
    simp [ih hn hi]

theorem rebuildParent_ok {entry : Node × Step} {current : Node × Option Node} {rebuilt : Node}
    {next after : Nat}
    (h : entry.1.replace entry.2.field (.child (some current.1) current.2) next =
      .ok rebuilt after) :
    rebuildParent entry current next = .ok (entry.1, some rebuilt) after :=
  Construct.bind_ok h

theorem rebuildParent_error {entry : Node × Step} {current : Node × Option Node}
    {error : EditError} {next after : Nat}
    (h : entry.1.replace entry.2.field (.child (some current.1) current.2) next =
      .error error after) :
    rebuildParent entry current next = .error error after :=
  Construct.bind_error h

namespace Leads

/-- A graft has the kind of the tree it was made from, if what was grafted has the kind of the node
it stands for. -/
theorem graft_alike (h : root.Leads front parent) {new : Node} (number : Nat → Nat)
    (hk : new.kind = parent.kind) (hs : new.symbol? = parent.symbol?) :
    (root.graft front new number).kind = root.kind ∧
      (root.graft front new number).symbol? = root.symbol? := by
  cases h with
  | here => exact ⟨hk, hs⟩
  | step hc _ _ =>
    rw [graft_cons hc, kind_put, symbol?_put, symbol?_of_childAt? hc]
    exact ⟨rfl, rfl⟩

/-- Above a node that became another of its kind, every ancestor is made anew and none fails. -/
theorem exists_foldrM (h : root.Leads front parent) (hw : root.WellFormed) {old new : Node}
    (hold : old.same parent = true) (hk : new.kind = parent.kind)
    (hs : new.symbol? = parent.symbol?) :
    ∃ spine, root.spine? front = some spine ∧ ∀ next, ∃ last, last.same root = true ∧
      spine.foldrM rebuildParent (old, some new) next =
        .ok (last, some (root.graft front new (next + ·))) (next + front.length) := by
  induction h with
  | here => exact ⟨[], rfl, fun next => ⟨old, hold, rfl⟩⟩
  | @step root child parent step path hc hf h ih =>
    have hchild := mem_children_of_childAt? hc
    obtain ⟨below, hb, hfold⟩ := ih (hw.of_mem_children hchild) hold hk hs
    refine ⟨(root, step) :: below, by simp [spine?, hc, hb], fun next => ?_⟩
    obtain ⟨last, hlast, hlower⟩ := hfold next
    refine ⟨root, same_self root, ?_⟩
    obtain ⟨rule, content, hh⟩ := hw.exists_holding hc
    obtain ⟨hkind, hsymbol⟩ := h.graft_alike (next + ·) hk hs
    have hadmits : rule.shape.permits.any (·.admits (child.graft path new (next + ·))) = true :=
      List.any_eq_true.mpr (hh.admits_alike hkind hsymbol)
    have hreplace := hw.replace_child hh hf hlast (child.graft path new (next + ·))
      (next + path.length)
    rw [if_pos hadmits] at hreplace
    rw [List.foldrM_cons, Construct.bind_ok hlower, rebuildParent_ok hreplace, graft_cons hc,
      List.length_cons, Nat.add_assoc]

theorem wellFormed_graft (h : root.Leads front parent) (hw : root.WellFormed) {new : Node}
    (number : Nat → Nat) (hn : new.WellFormed) (hk : new.kind = parent.kind)
    (hs : new.symbol? = parent.symbol?) : (root.graft front new number).WellFormed := by
  induction h with
  | here => exact hn
  | @step root child parent step path hc _ h ih =>
    have hm := mem_children_of_childAt? hc
    obtain ⟨rule, content, hh⟩ := hw.exists_holding hc
    obtain ⟨hkind, hsymbol⟩ := h.graft_alike number hk hs
    rw [graft_cons hc]
    exact hw.put hh (hh.admits_alike hkind hsymbol) (ih (hw.of_mem_children hm) hk hs) _

/-- The nodes that a graft makes join the history. -/
theorem history_graft (h : root.Leads path node) {next : Nat} {nodes : List Node}
    (hh : History next nodes) (hr : root ∈ nodes) {new : Node} (hn : new ∈ nodes) :
    ∃ more, nodes ⊆ more ∧ History (next + path.length) more ∧
      root.graft path new (next + ·) ∈ more := by
  induction h with
  | here => exact ⟨nodes, List.Subset.refl _, hh, hn⟩
  | @step root child node step path hc _ h ih =>
    have hm := mem_children_of_childAt? hc
    obtain ⟨more, hsub, hmore, hgraft⟩ := ih (hh.mem_of_mem_children hr hm)
    rw [graft_cons hc]
    refine ⟨_, List.Subset.trans hsub (List.subset_cons_self _ _), hmore.construct (id_put ..) ?_,
      List.mem_cons_self⟩
    intro held hheld
    rcases List.mem_cons.mp (children_put_subset hheld) with rfl | hheld
    · exact hgraft
    · exact hsub (hh.mem_of_mem_children hr hheld)

end Leads

/-- The first place of a node below a root, and the parent that it is a child of there. -/
structure FirstPlace (root target : Node) (front : List Step) (step : Step)
    (parent child : Node) : Prop where
  path : pathTo? target root = some (front ++ [step])
  leads : root.Leads front parent
  childAt : parent.childAt? step = some child
  foremost : parent.Foremost step child
  same : target.same child = true

theorem WellFormed.exists_firstPlace (h : root.WellFormed) {next : Nat} {nodes : List Node}
    (hh : History next nodes) (hr : root ∈ nodes)
    (hp : pathTo? target root = some (front ++ [step])) :
    ∃ parent child, root.FirstPlace target front step parent child := by
  obtain ⟨child, hleads, hs⟩ := h.exists_leads hh hr hp
  obtain ⟨parent, hparent, hc, hf⟩ := hleads.exists_parent
  exact ⟨parent, child, hp, hparent, hc, hf, same_comm target child ▸ hs⟩

theorem replaceWithin_of_none (h : pathTo? target root = none) (replacement : Option Node)
    (next : Nat) : root.replaceWithin target replacement next = .error .notInTree next := by
  rw [replaceWithin, h]
  rfl

theorem replaceWithin_of_nil (h : pathTo? target root = some []) (replacement : Option Node)
    (next : Nat) : root.replaceWithin target replacement next =
      match replacement with
      | some new => .ok new next
      | none => .error .removeRoot next := by
  rw [replaceWithin, h]
  simp only [rebuild, h]
  cases replacement <;> rfl

namespace FirstPlace

variable {replacement : Option Node} {next after : Nat}

theorem child_eq (h : root.FirstPlace target front step parent child) {nodes : List Node}
    (hh : History next nodes) (hr : root ∈ nodes) (ht : target ∈ root.descendants) :
    child = target := by
  have hchild := (h.leads.append_step h.childAt h.foremost).mem hh hr
  have hsame : target.id = child.id := by simpa [Node.same] using h.same
  exact hh.eq_of_id_eq hchild (hh.mem_of_mem_descendants hr ht) hsame.symm

theorem replaceWithin_eq (h : root.FirstPlace target front step parent child)
    {spine : List (Node × Step)} (hs : root.spine? front = some spine) :
    root.replaceWithin target replacement = (do
      let current ← rebuildParent (parent, step) (target, replacement)
      let (_, new) ← spine.foldrM rebuildParent current
      match new with
      | some result => return result
      | none => throw .removeRoot) := by
  have hlast : parent.spine? [step] = some [(parent, step)] := by simp [spine?, h.childAt]
  have hspine := spine?_append h.leads.nodeAt?_eq hs hlast
  have hfold : (spine ++ [(parent, step)]).foldrM rebuildParent (target, replacement) =
      rebuildParent (parent, step) (target, replacement) >>= spine.foldrM rebuildParent := by simp
  rw [replaceWithin, h.path]
  simp only [rebuild, h.path, hspine, Nat.sub_self, List.drop_zero, hfold]
  exact bind_assoc ..

/-- A deep edit that is answered at the parent grafts the answer into the tree. -/
theorem replaceWithin_ok (h : root.FirstPlace target front step parent child)
    (hw : root.WellFormed) {edited : Node}
    (he : parent.replace step.field (.child (some target) replacement) next = .ok edited after) :
    root.replaceWithin target replacement next =
      .ok (root.graft front edited (after + ·)) (after + front.length) := by
  obtain ⟨hkind, hsymbol⟩ := kind_of_replace he
  obtain ⟨spine, hs, hfold⟩ := h.leads.exists_foldrM hw (same_self parent) hkind
    (hsymbol.trans (symbol?_of_childAt? h.childAt).symm)
  obtain ⟨last, _, hlast⟩ := hfold after
  rw [h.replaceWithin_eq hs, Construct.bind_ok (rebuildParent_ok he), Construct.bind_ok hlast]
  rfl

/-- A deep edit that fails at the parent fails as a whole. -/
theorem replaceWithin_error (h : root.FirstPlace target front step parent child)
    (hw : root.WellFormed) {error : EditError}
    (he : parent.replace step.field (.child (some target) replacement) next =
      .error error after) :
    root.replaceWithin target replacement next = .error error after := by
  obtain ⟨spine, hs, _⟩ := h.leads.exists_foldrM hw (same_self parent)
    (Eq.refl parent.kind) rfl
  rw [h.replaceWithin_eq hs, Construct.bind_error (rebuildParent_error he)]

/-- A deep edit that succeeds has succeeded at the parent of the place. -/
theorem exists_edited {result : Node} (h : root.FirstPlace target front step parent child)
    (hw : root.WellFormed)
    (he : root.replaceWithin target replacement next = .ok result after) :
    ∃ edited middle, parent.replace step.field (.child (some target) replacement) next =
      .ok edited middle ∧ result = root.graft front edited (middle + ·) := by
  cases hreplace : parent.replace step.field (.child (some target) replacement) next with
  | error error middle =>
    rw [h.replaceWithin_error hw hreplace] at he
    cases he
  | ok edited middle =>
    rw [h.replaceWithin_ok hw hreplace] at he
    cases he
    exact ⟨edited, middle, rfl, rfl⟩

end FirstPlace

end Node

end ProgramTree
