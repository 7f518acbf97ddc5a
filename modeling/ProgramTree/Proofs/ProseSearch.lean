import Mathlib.Logic.Relation
import ProgramTree.Builders
import ProgramTree.Prose
import ProgramTree.Proofs.CheckedContents
import ProgramTree.Proofs.DeepReplacement
import ProgramTree.Proofs.Parts

namespace ProgramTree

theorem any_set_of_eq {α : Type} {f : α → Bool} {new old : α} (h : f new = f old) {items : List α}
    {index : Nat} (hi : items[index]? = some old) : (items.set index new).any f = items.any f := by
  have hmap : (items.set index new).map f = items.map f := by
    obtain ⟨hlt, rfl⟩ := List.getElem?_eq_some_iff.mp hi
    rw [List.map_set, h, ← List.getElem_map f (h := by simpa using hlt), List.set_getElem_self]
  have hany := congrArg (List.any · fun held => held) hmap
  simp only [List.any_map] at hany
  exact hany

namespace Node

variable {root node child new old words result : Node} {step : Step} {path : List Step}
  {text : String} {id next after : Nat}

/-- Some prose in the tree has the text as a contiguous part. -/
def HasProse (root : Node) (text : String) : Prop :=
  ∃ id prose, .token id .words prose ∈ root.descendants ∧ text.toList <:+: prose.toList

theorem hasProse_token {symbol : Symbol} {prose : String} :
    (token id symbol prose).HasProse text ↔
      symbol = .words ∧ text.toList <:+: prose.toList := by
  have hd : (token id symbol prose).descendants = [token id symbol prose] := descendants_eq _
  constructor
  · rintro ⟨other, content, hm, ht⟩
    rw [hd, List.mem_singleton] at hm
    cases hm
    exact ⟨rfl, ht⟩
  · rintro ⟨rfl, ht⟩
    exact ⟨id, prose, mem_descendants_self _, ht⟩

theorem hasProse_of_symbol?_eq_none (hs : root.symbol? = none) :
    root.HasProse text ↔ ∃ child ∈ root.children, child.HasProse text := by
  constructor
  · rintro ⟨id, prose, hm, ht⟩
    rcases mem_descendants.mp hm with rfl | ⟨child, hc, hd⟩
    · cases hs
    · exact ⟨child, hc, id, prose, hd, ht⟩
  · rintro ⟨child, hc, id, prose, hd, ht⟩
    exact ⟨id, prose, mem_descendants.mpr (.inr ⟨child, hc, hd⟩), ht⟩

theorem symbol?_eq_none_of_kind {kind : Kind} (hk : node.kind = kind) (ht : kind ≠ .token) :
    node.symbol? = none := by
  cases node with
  | token => exact absurd hk.symm ht
  | tree => rfl

theorem not_hasProse_of_isSymbol {symbol : Symbol} (hs : node.isSymbol symbol = true)
    (hw : symbol ≠ .words) : ¬ node.HasProse text := by
  cases node with
  | token id held prose =>
    have hheld : held = symbol := isSymbol_token.mp hs
    rw [hasProse_token, hheld]
    exact fun h => hw h.1
  | tree => simp [isSymbol, symbol?] at hs

theorem not_hasProse_of_format
    (h : ∃ permit ∈ Symbol.formats.map Permit.symbol, permit.admits node = true) :
    ¬ node.HasProse text := by
  obtain ⟨permit, hp, hadmits⟩ := h
  obtain ⟨format, hf, rfl⟩ := List.mem_map.mp hp
  refine not_hasProse_of_isSymbol hadmits ?_
  rintro rfl
  exact absurd hf (by decide)

/-- What a segment contributes to a search of the words it stands in. -/
def holdsProse (text : String) : Node → Bool
  | token _ symbol prose => symbol == .words && standsIn text.toList prose.toList
  | tree id kind fields => kind == .words && containsText (tree id kind fields) text

theorem containsText_eq (words : Node) (text : String) :
    words.containsText text = (words.elements "segments").any (holdsProse text) := by
  rw [containsText, List.any_subtype (g := holdsProse text), List.unattach_attach]
  rintro (⟨_, _, _⟩ | ⟨_, _, _⟩) _ <;> rfl

theorem holdsProse_of_kind (hk : words.kind = .words) :
    holdsProse text words = words.containsText text := by
  cases words with
  | token => cases hk
  | tree id kind fields =>
    cases hk
    rfl

theorem holdsProse_of_reference (hk : node.kind = .reference) : holdsProse text node = false := by
  cases node with
  | token => cases hk
  | tree id kind fields =>
    cases hk
    rfl

theorem holdsProse_of_isSymbol (hs : node.isSymbol .words = true) :
    holdsProse text node = true ↔ node.HasProse text := by
  cases node with
  | token id symbol prose => simp [holdsProse, hasProse_token, standsIn_iff]
  | tree => simp [isSymbol, symbol?] at hs

namespace WellFormed

theorem not_hasProse_of_reference (h : node.WellFormed) (hk : node.kind = .reference) :
    ¬ node.HasProse text := by
  rw [hasProse_of_symbol?_eq_none (symbol?_eq_none_of_kind hk (by decide))]
  rintro ⟨child, hc, ht⟩
  obtain ⟨rule, hr, content, -, hn, ha⟩ := h.exists_rule hc
  rw [hk] at hr
  cases List.mem_singleton.mp hr
  obtain ⟨permit, hp, hadmits⟩ := ha.admitted child hn
  cases List.mem_singleton.mp hp
  exact not_hasProse_of_isSymbol hadmits (by decide) ht

theorem segment_cases (h : words.WellFormed) (hk : words.kind = .words)
    (hs : child ∈ words.elements "segments") :
    child.kind = .words ∨ child.isSymbol .words = true ∨ child.kind = .reference := by
  have hr : FieldRule.nonEmptyList "segments" [.kind .words, .symbol .words, .kind .reference] ∈
      words.kind.grammar := by simp [hk, Kind.grammar]
  simpa [Permit.admits] using h.admitted_of_mem_elements hr hs

/-- A child of words is one of the segments or a delimiter, which is no prose. -/
theorem mem_segments_or (h : words.WellFormed) (hk : words.kind = .words)
    (hc : child ∈ words.children) : child ∈ words.elements "segments" ∨ ¬ child.HasProse text := by
  obtain ⟨rule, hr, content, hf, hn, ha⟩ := h.exists_rule hc
  have hg := hr
  rw [hk] at hg
  simp only [Kind.grammar, List.mem_cons, List.not_mem_nil, or_false] at hg
  rcases hg with rfl | rfl | rfl
  · exact .inr (not_hasProse_of_format (ha.admitted child hn))
  · cases hf.symm.trans (h.field?_eq_list hr)
    exact .inl hn
  · exact .inr (not_hasProse_of_format (ha.admitted child hn))

theorem containsText_iff (h : words.WellFormed) (hk : words.kind = .words) :
    words.containsText text = true ↔ words.HasProse text := by
  induction words using induction_children with
  | step words ih =>
    have hsegment : ∀ segment ∈ words.elements "segments",
        (holdsProse text segment = true ↔ segment.HasProse text) := by
      intro segment hs
      have hc := mem_children_of_elements hs
      rcases h.segment_cases hk hs with hw | ht | hr
      · rw [holdsProse_of_kind hw]
        exact ih segment hc (h.of_mem_children hc) hw
      · exact holdsProse_of_isSymbol ht
      · simp [holdsProse_of_reference hr, (h.of_mem_children hc).not_hasProse_of_reference hr]
    rw [containsText_eq, List.any_eq_true,
      hasProse_of_symbol?_eq_none (symbol?_eq_none_of_kind hk (by decide))]
    constructor
    · rintro ⟨segment, hs, ht⟩
      exact ⟨segment, mem_children_of_elements hs, (hsegment segment hs).mp ht⟩
    · rintro ⟨child, hc, ht⟩
      have hs := (h.mem_segments_or hk hc).resolve_right (not_not_intro ht)
      exact ⟨child, hs, (hsegment child hs).mpr ht⟩

end WellFormed

section Graft

variable (h : holdsProse text new = holdsProse text old)
include h

theorem containsText_put (hc : node.childAt? step = some old) (id : Nat) :
    (node.put step new id).containsText text = node.containsText text := by
  have hlookup : (node.put step new id).field? "segments" = _ := Fields.lookup_put ..
  rw [containsText_eq, containsText_eq, elements, elements, hlookup, ← field?]
  rw [childAt?_eq] at hc
  by_cases hs : "segments" = step.field
  · obtain ⟨content, hf, hat⟩ := Option.bind_eq_some_iff.mp hc
    rw [hs, hf]
    cases content with
    | one => simp [Field.put]
    | optional => simp [Field.put]
    | list nodes =>
      obtain ⟨position, hp, hget⟩ := Field.at?_list.mp hat
      simpa [hp, Field.put] using any_set_of_eq h hget
  · simp [hs]

/-- A search sees of a tree below the root only what its segments contribute. -/
theorem holdsProse_graft (hn : root.nodeAt? path = some old) (number : Nat → Nat) :
    holdsProse text (root.graft path new number) = holdsProse text root := by
  induction path generalizing root with
  | nil =>
    cases hn
    exact h
  | cons step path ih =>
    rw [nodeAt?_cons] at hn
    obtain ⟨child, hc, hd⟩ := Option.bind_eq_some_iff.mp hn
    rw [graft_cons hc]
    have hput := containsText_put (ih hd) hc (number path.length)
    cases root with
    | token => simp [childAt?_eq, field?, fields] at hc
    | tree id kind fields => exact congrArg (kind == .words && ·) hput

end Graft

/-- What may stand in the place of a node without a change to the prose. -/
inductive Reworded : Node → Node → Prop
  | duplicated {node copy : Node} {next after : Nat}
      (h : (node.duplicate : Construct ShapeError Node) next = .ok copy after) : Reworded node copy
  /-- One segment wrapped in formatted words. -/
  | wrapped {segment wrapper : Node} {format : Symbol} {next after : Nat}
      (h : Builders.formatted format [segment] next = .ok wrapper after) : Reworded segment wrapper
  /-- Other delimiters, or none, around the same segments in whatever order and number. -/
  | delimited {words other : Node} (hk : words.kind = .words) (ho : other.kind = .words)
      (hs : ∀ segment, segment ∈ other.elements "segments" ↔ segment ∈ words.elements "segments") :
      Reworded words other
  /-- A reference to another name. -/
  | referred {node other : Node} (hk : node.kind = .reference) (ho : other.kind = .reference) :
      Reworded node other

theorem kind_and_segments_of_formatted {format : Symbol} {segments : List Node}
    (h : Builders.formatted format segments next = .ok words after) :
    words.kind = .words ∧ words.elements "segments" = segments := by
  obtain ⟨_, _, _, h⟩ := Construct.exists_of_bind_ok h
  obtain ⟨_, _, _, h⟩ := Construct.exists_of_bind_ok h
  obtain ⟨_, rfl, _⟩ := create_eq_ok_iff.mp h
  exact ⟨rfl, rfl⟩

theorem Reworded.holdsProse_eq (h : Reworded old new) :
    holdsProse text new = holdsProse text old := by
  cases h with
  | duplicated h =>
    cases old with
    | token =>
      cases h
      rfl
    | tree id kind fields =>
      cases h
      rw [holdsProse, holdsProse, containsText_eq, containsText_eq]
      rfl
  | wrapped h =>
    obtain ⟨hk, hs⟩ := kind_and_segments_of_formatted h
    rw [holdsProse_of_kind hk, containsText_eq, hs]
    exact Bool.or_false _
  | delimited hk ho hs =>
    rw [holdsProse_of_kind hk, holdsProse_of_kind ho, containsText_eq, containsText_eq,
      Bool.eq_iff_iff, List.any_eq_true, List.any_eq_true]
    simp only [hs]
  | referred hk ho => rw [holdsProse_of_reference hk, holdsProse_of_reference ho]

theorem Reworded.kind_eq (h : Reworded old new) (hk : old.kind = .words) : new.kind = .words := by
  cases h with
  | duplicated h => cases old <;> cases h <;> exact hk
  | wrapped h => exact (kind_and_segments_of_formatted h).1
  | delimited _ ho => exact ho
  | referred hr => cases hk.symm.trans hr

/-- A tree in which one node was reworded, at whatever depth. -/
inductive RewordedWithin (root : Node) : Node → Prop
  | graft {path : List Step} {old new : Node} (hn : root.nodeAt? path = some old)
      (h : Reworded old new) (number : Nat → Nat) : RewordedWithin root (root.graft path new number)

theorem RewordedWithin.containsText_eq (h : RewordedWithin words result)
    (hk : words.kind = .words) :
    result.kind = .words ∧ result.containsText text = words.containsText text := by
  obtain @⟨path, old, new, hn, hr, number⟩ := h
  have hkind : (words.graft path new number).kind = .words := by
    cases path with
    | nil =>
      cases hn
      exact hr.kind_eq hk
    | cons step path =>
      obtain ⟨child, hc, _⟩ := Option.bind_eq_some_iff.mp ((nodeAt?_cons ..).symm.trans hn)
      exact (kind_graft hc).trans hk
  have hgraft : holdsProse text (words.graft path new number) = holdsProse text words :=
    holdsProse_graft hr.holdsProse_eq hn number
  rw [holdsProse_of_kind hkind, holdsProse_of_kind hk] at hgraft
  exact ⟨hkind, hgraft⟩

/-- Any number of rewordings, each at a place of its own. -/
theorem containsText_of_reworded (h : Relation.ReflTransGen RewordedWithin words result)
    (hk : words.kind = .words) :
    result.kind = .words ∧ result.containsText text = words.containsText text := by
  induction h with
  | refl => exact ⟨hk, rfl⟩
  | tail _ hstep ih =>
    obtain ⟨hkind, hsame⟩ := ih
    obtain ⟨hlast, heq⟩ := hstep.containsText_eq hkind
    exact ⟨hlast, heq.trans hsame⟩

/-- Whatever may stand in words may stand in formatted words. -/
theorem WellFormed.exists_formatted (h : words.WellFormed) (hk : words.kind = .words)
    {segment : Node} (hs : segment ∈ words.elements "segments") {format : Symbol}
    (hf : format.isFormat = true) (next : Nat) :
    ∃ wrapper after, Builders.formatted format [segment] next = .ok wrapper after := by
  obtain ⟨content, hc⟩ := Option.isSome_iff_exists.mp (Symbol.isFormat_canonical hf)
  have hmark (number : Nat) :
      ofSymbol format number = .ok (.token number format content) (number + 1) := by
    rw [ofSymbol, hc]
    rfl
  refine ⟨_, _, (Construct.bind_ok (hmark next)).trans ((Construct.bind_ok (hmark _)).trans
    (create_eq_ok_iff.mpr ⟨?_, rfl, rfl⟩))⟩
  have hformat : format ∈ Symbol.formats := List.contains_iff_mem.mp hf
  have hsegment := h.segment_cases hk hs
  rw [Kind.check_named rfl]
  simpa [Kind.grammar, FieldRule.paired, Permit.admits, hformat] using hsegment

/-- What a search of words sees: the prose at any depth and nothing else. -/
structure SearchesProse (words : Node) (text : String) : Prop where
  found : words.containsText text = true ↔
    ∃ id prose, .token id .words prose ∈ words.descendants ∧ text.toList <:+: prose.toList
  /-- The names in references are no prose. -/
  references : ∀ node ∈ words.descendants, node.kind = .reference → ¬ node.HasProse text
  /-- Nothing in words is prose beside their segments. -/
  delimiters : ∀ node ∈ words.descendants, node.kind = .words → ∀ child ∈ node.children,
    child ∉ node.elements "segments" → ¬ child.HasProse text
  reworded : ∀ result, Relation.ReflTransGen RewordedWithin words result →
    result.containsText text = words.containsText text
  /-- Every segment can be wrapped once more. -/
  wraps : ∀ node ∈ words.descendants, node.kind = .words →
    ∀ segment ∈ node.elements "segments", ∀ format : Symbol, format.isFormat = true → ∀ next,
      ∃ wrapper after, Builders.formatted format [segment] next = .ok wrapper after

theorem searchesProse (h : words.WellFormed) (hk : words.kind = .words) (text : String) :
    words.SearchesProse text where
  found := h.containsText_iff hk
  references _ hn hr := (h.of_mem_descendants hn).not_hasProse_of_reference hr
  delimiters _ hn hw _ hc hs := ((h.of_mem_descendants hn).mem_segments_or hw hc).resolve_left hs
  reworded _ hr := (containsText_of_reworded hr hk).2
  wraps _ hn hw _ hs _ hf next := (h.of_mem_descendants hn).exists_formatted hw hs hf next

/-- Words between marks: prose, a reference, and more prose one level down. -/
def citation : Node :=
  .tree 7 .words
    [("open", .optional (some (.token 0 .italic "/"))),
     ("segments", .list
      [.token 1 .words "see ", .tree 3 .reference [("name", .one (.token 2 .name "rain"))],
       .tree 5 .words [("open", .optional none), ("segments", .list [.token 4 .words "!"]),
         ("close", .optional none)]]),
     ("close", .optional (some (.token 6 .italic "/")))]

theorem searchesProse_citation :
    citation.WellFormed ∧ citation.kind = .words ∧ citation.containsText "ee" = true ∧
      citation.containsText "rain" = false ∧ ∃ wrapper after,
        Builders.formatted .bold [.token 1 .words "see "] 8 = .ok wrapper after ∧
          (citation.graft [⟨"segments", some 0⟩] wrapper (after + ·)).containsText "ee" = true := by
  have hw : citation.WellFormed := by decide +kernel
  have hs := searchesProse hw rfl "ee"
  have hfound : citation.containsText "ee" = true := by decide +kernel
  obtain ⟨wrapper, after, hwrap⟩ := hs.wraps citation (mem_descendants_self citation) rfl
    (.token 1 .words "see ") List.mem_cons_self .bold rfl 8
  have hgraft : citation.RewordedWithin
      (citation.graft [⟨"segments", some 0⟩] wrapper (after + ·)) := .graft rfl (.wrapped hwrap) _
  refine ⟨hw, rfl, hfound, by decide +kernel, wrapper, after, hwrap, ?_⟩
  rw [hs.reworded _ (.single hgraft), hfound]

end Node

end ProgramTree
