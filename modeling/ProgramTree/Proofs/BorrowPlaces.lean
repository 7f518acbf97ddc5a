import ProgramTree.Declarations
import ProgramTree.Proofs.Occurrences

namespace ProgramTree

/-- Only the permit of its kind admits a node that is no token and no expression. -/
theorem Permit.eq_kind_of_admits {permit : Permit} {node : Node} (ht : node.kind ≠ .token)
    (he : node.kind.isExpression = false) (h : permit.admits node = true) :
    permit = .kind node.kind := by
  cases permit with
  | kind kind => simpa [admits] using (beq_iff_eq.mp h).symm
  | symbol symbol =>
    cases node with
    | token => exact absurd rfl ht
    | tree => simp [admits, Node.isSymbol, Node.symbol?] at h
  | expression => simp [admits, he] at h
  | definition => simp [admits] at h; simp [Kind.isExpression_of_isDefinition h] at he

theorem Permit.exists_text?_of_admits {symbol : Symbol} {node : Node}
    (h : (Permit.symbol symbol).admits node = true) : ∃ text, node.text? = some text := by
  cases node with
  | token id symbol text => exact ⟨text, rfl⟩
  | tree => simp [admits, Node.isSymbol, Node.symbol?] at h

theorem Kind.not_permit_source (kind : Kind) :
    ∀ rule ∈ kind.grammar, Permit.kind .source ∉ rule.shape.permits := by
  cases kind <;> decide

theorem Kind.eq_of_permit_borrow (kind : Kind) :
    ∀ rule ∈ kind.grammar, Permit.kind .borrow ∈ rule.shape.permits →
      kind = .source ∧ rule = .list "borrows" [.kind .borrow] := by
  cases kind <;> decide

namespace Node

variable {root node child : Node}

theorem mem_descendants_parent (h : node ∈ root.descendants) :
    node = root ∨ ∃ parent ∈ root.descendants, node ∈ parent.children := by
  induction root using induction_children with
  | step root ih =>
    rcases mem_descendants.mp h with he | ⟨child, hc, hd⟩
    · exact Or.inl he
    · right
      rcases ih child hc hd with rfl | ⟨parent, hp, hn⟩
      · exact ⟨root, mem_descendants_self root, hc⟩
      · exact ⟨parent, mem_descendants.mpr (Or.inr ⟨child, hc, hp⟩), hn⟩

namespace WellFormed

theorem kind_child_ne_source (h : node.WellFormed) (hc : child ∈ node.children) :
    child.kind ≠ .source := by
  intro hk
  obtain ⟨rule, hr, content, _, hn, ha⟩ := h.exists_rule hc
  obtain ⟨permit, hp, had⟩ := ha.admitted child hn
  have he := Permit.eq_kind_of_admits (by simp [hk]) (by rw [hk]; rfl) had
  rw [he, hk] at hp
  exact node.kind.not_permit_source rule hr hp

/-- A borrow is a child of a source only, and stands among its borrows. -/
theorem mem_borrows_of_mem_children (h : node.WellFormed) (hc : child ∈ node.children)
    (hk : child.kind = .borrow) : node.kind = .source ∧ child ∈ node.borrows := by
  obtain ⟨rule, hr, content, hf, hn, ha⟩ := h.exists_rule hc
  obtain ⟨permit, hp, had⟩ := ha.admitted child hn
  have he := Permit.eq_kind_of_admits (by simp [hk]) (by rw [hk]; rfl) had
  rw [he, hk] at hp
  obtain ⟨hs, rfl⟩ := node.kind.eq_of_permit_borrow rule hr hp
  refine ⟨hs, ?_⟩
  cases content with
  | list nodes =>
    have hl : node.field? "borrows" = some (.list nodes) := hf
    simpa [borrows, hs, elements, hl, Field.nodes] using hn
  | one | optional => cases ha.arity

theorem eq_root_of_kind_source (h : root.WellFormed) (hn : node ∈ root.descendants)
    (hk : node.kind = .source) : node = root := by
  rcases mem_descendants_parent hn with he | ⟨parent, hp, hc⟩
  · exact he
  · exact absurd hk ((h.of_mem_descendants hp).kind_child_ne_source hc)

/-- The borrows of a tree under a source are those that the source lists. -/
theorem mem_borrows_iff (h : root.WellFormed) (hs : root.kind = .source) :
    node ∈ root.borrows ↔ node ∈ root.descendants ∧ node.kind = .borrow := by
  constructor
  · intro hb
    have he : node ∈ root.elements "borrows" := by simpa [borrows, hs] using hb
    have hc := mem_children_of_elements he
    refine ⟨mem_descendants.mpr (Or.inr ⟨node, hc, mem_descendants_self node⟩), ?_⟩
    have hr : FieldRule.list "borrows" [.kind .borrow] ∈ root.kind.grammar := by
      rw [hs]
      decide
    obtain ⟨permit, hp, had⟩ := h.admitted_of_mem_elements hr he
    cases List.mem_singleton.mp hp
    exact beq_iff_eq.mp had
  · rintro ⟨hd, hk⟩
    rcases mem_descendants_parent hd with rfl | ⟨parent, hp, hc⟩
    · rw [hs] at hk
      cases hk
    · obtain ⟨hps, hb⟩ := (h.of_mem_descendants hp).mem_borrows_of_mem_children hc hk
      exact h.eq_root_of_kind_source hp hps ▸ hb

end WellFormed

end Node

end ProgramTree
