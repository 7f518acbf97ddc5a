import ProgramTree.Proofs.WellFormed

namespace ProgramTree

theorem Node.lookup_map_content {α β : Type} (f : α → β) (fields : List (String × α))
    (name : String) :
    (fields.map fun (name, content) => (name, f content)).lookup name =
      (fields.lookup name).map f := by
  induction fields with
  | nil => rfl
  | cons field rest ih =>
    obtain ⟨key, content⟩ := field
    by_cases hn : name = key
    · simp [hn]
    · simpa [List.lookup_cons, beq_eq_false_iff_ne.mpr hn] using ih

theorem Field.map_congr {α β : Type} {f g : α → β} {content : Field α}
    (h : ∀ node ∈ content.nodes, f node = g node) : content.map f = content.map g := by
  cases content with
  | one node => simpa [map, nodes] using h
  | optional node => cases node <;> simp_all [map, nodes]
  | list nodes => simpa [map, Field.nodes] using h

theorem Field.isPresent_map {α β : Type} (f : α → β) (content : Field α) :
    (content.map f).isPresent = content.isPresent := by
  rw [isPresent, isPresent, nodes_map, List.isEmpty_map]

theorem Field.arity_map (f : Node → Node) (content : Field Node) :
    (content.map f).arity = content.arity := by
  cases content <;> rfl

/-- What a permit says of a node depends on its kind and its class alone. -/
theorem Permit.admits_congr {a b : Node} (hk : a.kind = b.kind) (hs : a.symbol? = b.symbol?)
    (permit : Permit) : permit.admits a = permit.admits b := by
  cases permit <;> simp [admits, Node.isSymbol, hk, hs]

section Map

variable {f : Node → Node} (hk : ∀ node, (f node).kind = node.kind)
  (hs : ∀ node, (f node).symbol? = node.symbol?)

include hk hs

theorem Shape.Allows.map {shape : Shape} {content : Field Node} (h : shape.Allows content) :
    shape.Allows (content.map f) := by
  refine ⟨(Field.arity_map f content).trans h.arity, ?_, ?_⟩
  · intro other ho
    rw [Field.nodes_map] at ho
    obtain ⟨node, hn, rfl⟩ := List.mem_map.mp ho
    obtain ⟨permit, hp, ha⟩ := h.admitted node hn
    exact ⟨permit, hp, (permit.admits_congr (hk node) (hs node)).trans ha⟩
  · intro hne
    rw [Field.nodes_map]
    exact fun he => h.nonEmpty hne (List.map_eq_nil_iff.mp he)

/-- Other nodes of the same kinds and classes fit as well. -/
theorem Kind.Fits.map {kind : Kind} {fields : Fields} (h : kind.Fits fields) :
    kind.Fits (fields.map fun (name, content) => (name, content.map f)) := by
  have hpresent : ∀ name : String,
      ((fields.map fun (name, content) => (name, content.map f)).lookup name).any (·.isPresent) =
        (fields.lookup name).any (·.isPresent) := by
    intro name
    rw [Node.lookup_map_content]
    cases fields.lookup name with
    | none => rfl
    | some content => rw [Option.map_some, Option.any_some, Option.any_some, Field.isPresent_map]
  refine ⟨?_, fun rule hr => ?_, fun rule hr pair hp => ?_⟩
  · rw [List.map_map]
    exact h.names
  · obtain ⟨content, hl, ha⟩ := h.allowed rule hr
    exact ⟨_, by rw [Node.lookup_map_content, hl, Option.map_some], ha.map hk hs⟩
  · rw [hpresent, hpresent]
    exact h.paired rule hr pair hp

end Map

namespace Node

variable {f : Node → Node} {old new : Node} {name : String}
  (h : new.field? name = (old.field? name).map (Field.map f))

include h

theorem single?_of_field?_map : new.single? name = (old.single? name).map f := by
  rw [single?, single?, h]
  cases old.field? name with
  | none => rfl
  | some content => cases content <;> rfl

theorem elements_of_field?_map : new.elements name = (old.elements name).map f := by
  rw [elements, elements, h]
  cases old.field? name with
  | none => rfl
  | some content => cases content <;> rfl

end Node

end ProgramTree
