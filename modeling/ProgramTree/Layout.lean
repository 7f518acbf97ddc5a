import ProgramTree.ShapeError

namespace ProgramTree

def Field.arity {α : Type} : Field α → Arity
  | one _ => .single
  | optional _ => .optional
  | list _ => .list

/-- The names of the fields with what each can hold. -/
def Fields.layout (fields : Fields) : List (String × Arity) :=
  fields.map fun (name, content) => (name, content.arity)

namespace Kind

/-- The places that a node of each kind declares, in order. -/
def layout : Kind → List (String × Arity)
  | token => []
  | source => [("names", .single), ("borrows", .list), ("body", .single)]
  | borrow => [("borrow", .single), ("source", .single), ("dot", .optional), ("name", .optional)]
  | names => [("names", .list)]
  | block => [("open", .optional), ("statements", .list), ("close", .optional)]
  | functionDefinition =>
    [("docs", .optional), ("fun", .single), ("names", .single), ("open", .single),
     ("inputs", .list), ("close", .single), ("expression", .optional)]
  | structureDefinition =>
    [("docs", .optional), ("kind", .single), ("names", .single), ("open", .optional),
     ("inputs", .list), ("close", .optional), ("expression", .optional)]
  | streamDefinition =>
    [("docs", .optional), ("stream", .single), ("names", .single), ("open", .single),
     ("inputs", .list), ("close", .single), ("expression", .optional)]
  | bind => [("names", .single), ("colon", .optional), ("value", .optional)]
  | evaluate => [("fun", .single), ("open", .single), ("inputs", .list), ("close", .single)]
  | binaryEvaluate => [("left", .single), ("operator", .single), ("right", .single)]
  | input => [("name", .single), ("colon", .single), ("value", .single)]
  | reference => [("name", .single)]
  | numberLiteral => [("number", .single)]
  | textLiteral => [("text", .single)]
  | docs => [("docs", .list)]
  | doc => [("open", .single), ("content", .list), ("close", .optional)]
  | words => [("open", .optional), ("segments", .list), ("close", .optional)]

/-- The grammar has a rule for every place, in the same order, and no others. -/
theorem layout_eq (kind : Kind) :
    kind.layout = kind.grammar.map fun rule => (rule.name, rule.shape.arity) := by
  cases kind <;> rfl

theorem map_fst_layout (kind : Kind) : kind.layout.map (·.1) = kind.grammar.map (·.name) := by
  simp [layout_eq]

theorem length_layout (kind : Kind) : kind.layout.length = kind.grammar.length := by
  simp [layout_eq]

/-- Puts contents, listed in order, under the names of the places. -/
def named (kind : Kind) (contents : List (Field Node)) : Fields :=
  contents.zipIdx.map fun (content, index) =>
    ((kind.layout[index]?.map (·.1)).getD "", content)

theorem length_named (kind : Kind) (contents : List (Field Node)) :
    (kind.named contents).length = contents.length := by
  simp [named]

theorem map_snd_named (kind : Kind) (contents : List (Field Node)) :
    (kind.named contents).map (·.2) = contents := by
  simp [named, Function.comp_def]

theorem map_fst_named {kind : Kind} {contents : List (Field Node)}
    (h : contents.length = kind.layout.length) :
    (kind.named contents).map (·.1) = kind.layout.map (·.1) := by
  refine List.ext_getElem (by simp [named, h]) fun index _ hr => ?_
  have hi : index < kind.layout.length := by simpa using hr
  simp [named, hi]

/-- Fills places with contents one by one, whatever names the contents come under. -/
def fill (kind : Kind) : List (String × Arity) → Fields → Except ShapeError Fields
  | [], [] => .ok []
  | [], rest => .error (.fieldCount kind kind.layout.length (kind.layout.length + rest.length))
  | (name, arity) :: _, [] => .error (.fieldArity kind name arity)
  | (name, arity) :: places, (_, content) :: rest =>
    if content.arity = arity then
      (kind.fill places rest).map ((name, content) :: ·)
    else
      .error (.fieldArity kind name arity)

/-- Puts fields back into the places of a kind. -/
def arrange (kind : Kind) (fields : Fields) : Except ShapeError Fields :=
  kind.fill kind.layout fields

theorem fill_eq_ok_iff {kind : Kind} {places : List (String × Arity)} {fields filled : Fields} :
    kind.fill places fields = .ok filled ↔
      filled.layout = places ∧ filled.map (·.2) = fields.map (·.2) := by
  unfold Fields.layout
  induction places generalizing fields filled with
  | nil => cases fields <;> cases filled <;> simp [fill]
  | cons place places ih =>
    obtain ⟨name, arity⟩ := place
    cases fields with
    | nil => cases filled <;> simp [fill]
    | cons field rest =>
      obtain ⟨given, content⟩ := field
      have hrest : (kind.fill places rest).map ((name, content) :: ·) = .ok filled ↔
          ∃ others, kind.fill places rest = .ok others ∧ (name, content) :: others = filled := by
        cases kind.fill places rest <;> simp [Except.map]
      simp only [fill, List.map_cons]
      split
      next ha =>
        rw [hrest]
        constructor
        · rintro ⟨others, ho, rfl⟩
          simpa [ha] using ih.mp ho
        · rintro ⟨hp, hc⟩
          cases filled with
          | nil => simp at hp
          | cons first others =>
            obtain ⟨own, held⟩ := first
            simp only [List.map_cons, List.cons.injEq, Prod.mk.injEq] at hp hc
            obtain ⟨⟨rfl, -⟩, hp⟩ := hp
            obtain ⟨rfl, hc⟩ := hc
            exact ⟨others, ih.mpr ⟨hp, hc⟩, rfl⟩
      next ha =>
        constructor
        · intro h
          cases h
        · rintro ⟨hp, hc⟩
          cases filled with
          | nil => simp at hp
          | cons first others =>
            simp only [List.map_cons, List.cons.injEq, Prod.mk.injEq] at hp hc
            exact absurd (hc.1 ▸ hp.1.2) ha

theorem arrange_eq_ok_iff {kind : Kind} {fields arranged : Fields} :
    kind.arrange fields = .ok arranged ↔
      arranged.layout = kind.layout ∧ arranged.map (·.2) = fields.map (·.2) :=
  fill_eq_ok_iff

theorem map_fst_of_layout {kind : Kind} {fields : Fields} (h : fields.layout = kind.layout) :
    fields.map (·.1) = kind.grammar.map (·.name) := by
  rw [← map_fst_layout, ← h, Fields.layout, List.map_map]
  rfl

end Kind

end ProgramTree
