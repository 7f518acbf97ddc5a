import ProgramTree.Proofs.FieldEdits
import ProgramTree.Proofs.SourceOrder

namespace ProgramTree

namespace Node

mutual

/-- The same tree with the documentation of every definition absent. -/
def withoutDocs : Node → Node
  | token id symbol text => token id symbol text
  | tree id kind fields => tree id kind (withoutDocsFields kind.isDefinition fields)

def withoutDocsFields (documented : Bool) : List (String × Field Node) → List (String × Field Node)
  | [] => []
  | (name, content) :: rest =>
    (name, if documented && name == "docs" then .optional none else withoutDocsField content) ::
      withoutDocsFields documented rest

def withoutDocsField : Field Node → Field Node
  | .one node => .one (withoutDocs node)
  | .optional none => .optional none
  | .optional (some node) => .optional (some (withoutDocs node))
  | .list nodes => .list (withoutDocsAll nodes)

def withoutDocsAll : List Node → List Node
  | [] => []
  | node :: rest => withoutDocs node :: withoutDocsAll rest

end

variable {node child : Node} {name : String}

theorem withoutDocsAll_eq (nodes : List Node) : withoutDocsAll nodes = nodes.map withoutDocs := by
  induction nodes with
  | nil => rfl
  | cons node rest ih => rw [withoutDocsAll, ih, List.map_cons]

theorem withoutDocsField_eq (content : Field Node) :
    withoutDocsField content = content.map withoutDocs := by
  cases content with
  | one => rfl
  | optional node => cases node <;> rfl
  | list nodes => rw [withoutDocsField, withoutDocsAll_eq, Field.map]

theorem withoutDocsFields_eq (documented : Bool) (fields : List (String × Field Node)) :
    withoutDocsFields documented fields = fields.map fun (name, content) =>
      (name, if documented && name == "docs" then .optional none else content.map withoutDocs) := by
  induction fields with
  | nil => rfl
  | cons field rest ih => rw [withoutDocsFields, ih, withoutDocsField_eq, List.map_cons]

theorem fields_withoutDocs (node : Node) :
    node.withoutDocs.fields = node.fields.map fun (name, content) =>
      (name, if node.kind.isDefinition && name == "docs" then .optional none
        else content.map withoutDocs) := by
  cases node with
  | token => rfl
  | tree id kind fields => exact withoutDocsFields_eq kind.isDefinition fields

@[simp]
theorem kind_withoutDocs (node : Node) : node.withoutDocs.kind = node.kind := by
  cases node <;> rfl

@[simp]
theorem symbol?_withoutDocs (node : Node) : node.withoutDocs.symbol? = node.symbol? := by
  cases node <;> rfl

theorem text?_withoutDocs (node : Node) : node.withoutDocs.text? = node.text? := by
  cases node <;> rfl

theorem lookup_withoutDocs (documented : Bool) (fields : Fields) (hn : name ≠ "docs") :
    (fields.map fun (name, content) => (name, if documented && name == "docs" then .optional none
      else content.map withoutDocs)).lookup name =
      (fields.lookup name).map (Field.map withoutDocs) := by
  induction fields with
  | nil => rfl
  | cons field rest ih =>
    obtain ⟨key, content⟩ := field
    by_cases hk : name = key
    · subst hk
      simp [hn]
    · simpa [List.lookup_cons, beq_eq_false_iff_ne.mpr hk] using ih

theorem field?_withoutDocs (node : Node) (hn : name ≠ "docs") :
    node.withoutDocs.field? name = (node.field? name).map (Field.map withoutDocs) := by
  rw [field?, fields_withoutDocs, lookup_withoutDocs _ _ hn, ← field?]

theorem single?_withoutDocs (node : Node) (hn : name ≠ "docs") :
    node.withoutDocs.single? name = (node.single? name).map withoutDocs :=
  single?_of_field?_map (field?_withoutDocs node hn)

theorem elements_withoutDocs (node : Node) (hn : name ≠ "docs") :
    node.withoutDocs.elements name = (node.elements name).map withoutDocs :=
  elements_of_field?_map (field?_withoutDocs node hn)

end Node

/-- Documentation stands in one field of the definitions, and nowhere else. -/
theorem Kind.docs_rule (kind : Kind) :
    ∀ rule ∈ kind.grammar, .kind .docs ∈ rule.shape.permits ↔
      kind.isDefinition = true ∧ rule.name = "docs" := by
  cases kind <;> decide

theorem Kind.mem_docs_rule (kind : Kind) (h : kind.isDefinition = true) :
    FieldRule.optional "docs" [.kind .docs] ∈ kind.grammar := by
  revert h
  cases kind <;> decide

namespace Node

variable {node child : Node} {name : String}

theorem WellFormed.kind_eq_docs_iff (h : node.WellFormed) {content : Field Node}
    (hf : (name, content) ∈ node.fields) (hc : child ∈ content.nodes) :
    child.kind = .docs ↔ node.kind.isDefinition = true ∧ name = "docs" := by
  obtain ⟨rule, hr, rfl, ha⟩ := h.exists_rule_of_mem hf
  obtain ⟨permit, hp, hadmits⟩ := ha.admitted child hc
  rw [← node.kind.docs_rule rule hr]
  constructor
  · intro hk
    have hpermit := Permit.eq_kind_of_admits (by simp [hk]) (by rw [hk]; rfl) hadmits
    rwa [hpermit, hk] at hp
  · intro hm
    obtain ⟨hd, hname⟩ := (node.kind.docs_rule rule hr).mp hm
    have hrule : rule = FieldRule.optional "docs" [.kind .docs] :=
      Kind.eq_of_name_eq (node.kind.mem_docs_rule hd) hr hname
    subst hrule
    cases List.mem_singleton.mp hp
    exact beq_iff_eq.mp hadmits

/-- What is left out is the documentation, with all that stands below it. -/
theorem WellFormed.children_withoutDocs (h : node.WellFormed) :
    node.withoutDocs.children = (node.children.filter (·.kind != .docs)).map Node.withoutDocs := by
  rw [children, children, fields_withoutDocs, List.flatMap_map, List.filter_flatMap,
    List.map_flatMap]
  refine List.flatMap_congr ?_
  rintro ⟨name, content⟩ hf
  by_cases hdocs : node.kind.isDefinition = true ∧ name = "docs"
  · have hnone : content.nodes.filter (·.kind != .docs) = [] := by
      rw [List.filter_eq_nil_iff]
      intro child hc
      simp [(h.kind_eq_docs_iff hf hc).mpr hdocs]
    rw [hnone]
    simp [hdocs, Field.nodes]
  · have hall : content.nodes.filter (·.kind != .docs) = content.nodes := by
      rw [List.filter_eq_self]
      intro child hc
      have hne : child.kind ≠ .docs := fun hk => hdocs ((h.kind_eq_docs_iff hf hc).mp hk)
      simpa using hne
    simp [hdocs, hall, Field.nodes_map]

theorem fits_withoutDocs {kind : Kind} {fields : Fields} (h : kind.Fits fields) :
    kind.Fits (withoutDocsFields kind.isDefinition fields) := by
  have hmap := h.map kind_withoutDocs symbol?_withoutDocs
  rw [withoutDocsFields_eq]
  cases hd : kind.isDefinition with
  | false => simpa using hmap
  | true =>
    have hr := kind.mem_docs_rule hd
    obtain ⟨content, hl, -⟩ := hmap.allowed _ hr
    have hallows : (Shape.optional [.kind .docs] none).Allows (.optional none) :=
      ⟨rfl, by simp [Field.nodes], by simp [Shape.nonEmpty]⟩
    have hassign := hmap.assign hr hl (by simp [FieldRule.optional, Shape.pair?]) hallows
    simpa [Fields.assign, FieldRule.optional, Function.comp_def] using hassign

theorem WellFormed.withoutDocs (h : node.WellFormed) : node.withoutDocs.WellFormed := by
  induction h with
  | token id symbol text => exact .token id symbol text
  | tree hk hf hc ih =>
    have hchildren := (WellFormed.tree hk hf hc).children_withoutDocs
    refine .tree hk (fits_withoutDocs hf) fun child hm => ?_
    have hchild : child ∈ (Node.tree _ _ _).withoutDocs.children := hm
    rw [hchildren] at hchild
    obtain ⟨old, ho, rfl⟩ := List.mem_map.mp hchild
    exact ih old (List.mem_filter.mp ho).1

/-- Of what the analysis reads nothing gets lost with the documentation. -/
theorem translation_withoutDocs : Translation (fun name => name) Node.withoutDocs where
  injective := Function.injective_id
  kind := kind_withoutDocs
  single? node _ hn := single?_withoutDocs node hn
  elements node _ hn := elements_withoutDocs node hn
  text? node _ := by rw [text?_withoutDocs, Option.map_id']
  children _ h := ⟨(·.kind != .docs), by simp, h.children_withoutDocs⟩

end Node

namespace Program

/-- The same program with the documentation of every definition absent. -/
def withoutDocs (program : Program) : Program :=
  ⟨program.entries.map fun (name, source) => (name, source.withoutDocs)⟩

variable {p q : Program}

theorem Reachable.withoutDocs (hp : p.Reachable Node.WellFormed) :
    p.withoutDocs.Reachable Node.WellFormed :=
  hp.translate Function.injective_id (fun _ h => Node.translation_withoutDocs.renamed h)
    fun _ h => h.withoutDocs

theorem conflicts_withoutDocs (hp : p.Reachable Node.WellFormed) :
    p.withoutDocs.analyze.conflicts = p.analyze.conflicts.map (.map Node.withoutDocs) :=
  Node.translation_withoutDocs.conflicts_analyze fun _ hs => (hp.keyed.mem_sources hs).1

/-- Programs whose sources differ in numbers only have conflicts that differ in numbers only. -/
theorem map_erase_conflicts_of_sources (hp : p.Reachable Node.WellFormed)
    (hq : q.Reachable Node.WellFormed) (h : p.sources.map Node.erase = q.sources.map Node.erase) :
    p.analyze.conflicts.map (Conflict.map Node.erase) =
      q.analyze.conflicts.map (Conflict.map Node.erase) := by
  rw [← hp.map_erase_conflicts, ← hq.map_erase_conflicts, relabel_erasing_eq_of_sources hp hq h]

/-- The conflicts of a program of which another one is left without documentation, whatever numbers
the nodes of the two carry. -/
theorem forall₂_conflicts_withoutDocs (hp : p.Reachable Node.WellFormed)
    (hq : q.Reachable Node.WellFormed)
    (h : q.sources.map Node.erase = p.withoutDocs.sources.map Node.erase) :
    List.Forall₂ (fun c d => c.map Node.erase = (d.map Node.withoutDocs).map Node.erase)
      q.analyze.conflicts p.analyze.conflicts := by
  have hconflicts := map_erase_conflicts_of_sources hq hp.withoutDocs h
  rw [conflicts_withoutDocs hp] at hconflicts
  have hpairs : List.Forall₂ (· = ·) (q.analyze.conflicts.map (Conflict.map Node.erase))
      ((p.analyze.conflicts.map (Conflict.map Node.withoutDocs)).map (Conflict.map Node.erase)) := by
    rw [hconflicts, List.forall₂_eq_eq_eq]
  simpa [List.forall₂_map_left_iff, List.forall₂_map_right_iff] using hpairs

theorem isExecutable_withoutDocs (hp : p.Reachable Node.WellFormed) :
    p.withoutDocs.analyze.isExecutable = p.analyze.isExecutable := by
  rw [Bool.eq_iff_iff, Findings.isExecutable_iff, Findings.isExecutable_iff,
    conflicts_withoutDocs hp, List.map_eq_nil_iff]

theorem isExecutable_of_erase (hp : p.Reachable Node.WellFormed) (hq : q.Reachable Node.WellFormed)
    (h : p.sources.map Node.erase = q.sources.map Node.erase) :
    p.analyze.isExecutable = q.analyze.isExecutable := by
  have hconflicts := map_erase_conflicts_of_sources hp hq h
  rw [Bool.eq_iff_iff, Findings.isExecutable_iff, Findings.isExecutable_iff,
    ← List.map_eq_nil_iff (f := Conflict.map Node.erase), hconflicts, List.map_eq_nil_iff]

/-- Documentation is never analysed. Left out at every depth, it leaves a program whose conflicts
are those of the documented one without it, in the same order; so they are if the program without
documentation is made of other nodes, up to numbers. Programs that differ in documentation only get
one verdict. -/
theorem analysis_withoutDocs (hp : p.Reachable Node.WellFormed) :
    p.withoutDocs.Reachable Node.WellFormed ∧
    p.withoutDocs.analyze.conflicts = p.analyze.conflicts.map (.map Node.withoutDocs) ∧
    (∀ q : Program, q.Reachable Node.WellFormed →
      q.sources.map Node.erase = p.withoutDocs.sources.map Node.erase →
      List.Forall₂ (fun c d => c.map Node.erase = (d.map Node.withoutDocs).map Node.erase ∧
        (c == d.map Node.withoutDocs) = true) q.analyze.conflicts p.analyze.conflicts) ∧
    ∀ q : Program, q.Reachable Node.WellFormed →
      q.withoutDocs.sources.map Node.erase = p.withoutDocs.sources.map Node.erase →
      q.analyze.isExecutable = p.analyze.isExecutable := by
  refine ⟨hp.withoutDocs, conflicts_withoutDocs hp, fun q hq h => ?_, fun q hq h => ?_⟩
  · exact (forall₂_conflicts_withoutDocs hp hq h).imp fun c d hcd =>
      ⟨hcd, Conflict.equal_of_map_erase_eq hcd⟩
  · rw [← isExecutable_withoutDocs hp, ← isExecutable_withoutDocs hq]
    exact isExecutable_of_erase hq.withoutDocs hp.withoutDocs h

section Documented

/-- A piece of documentation that mentions `g`, which is no definition. -/
def formDocs : Node :=
  .tree 48 .docs
    [("docs", .list [.tree 47 .doc
      [("open", .one (.token 46 .doc "¶")),
       ("content", .list [.tree 45 .words
         [("open", .optional none),
          ("segments", .list [.tree 44 .reference [("name", .one (.token 43 .name "g"))]]),
          ("close", .optional none)]]),
       ("close", .optional none)]])]

/-- The source `b` once more, with documentation for its structure. -/
def documentedSource : Node :=
  .tree 20 .source
    [("names", .one (.tree 18 .names [("names", .list [.token 17 .name "b"])])),
     ("borrows", .list []),
     ("body", .one (bodyOver 19
       [.tree 16 .structureDefinition
         [("docs", .optional (some formDocs)), ("kind", .one (.token 13 .type "•")),
          ("names", .one (.tree 15 .names [("names", .list [.token 14 .name "f"])])),
          ("open", .optional (some (.token 11 .evalOpen "("))), ("inputs", .list [formInput]),
          ("close", .optional (some (.token 12 .evalClose ")"))),
          ("expression", .optional none)]]))]

example : documentedSource.withoutDocs = openSource := rfl

def documented : Program :=
  ⟨[("b", documentedSource), ("c", callingSource)]⟩

theorem reachable_documented : documented.Reachable Node.WellFormed := by
  have hmade : ofSources documented.sources = .ok documented := rfl
  refine .ofSources (fun source hs => ?_) hmade
  rcases List.mem_pair.mp hs with rfl | rfl <;> decide +kernel

/-- A call lacks an input of the documented structure, and of the structure without documentation
as well. -/
theorem analysis_withoutDocs_documented :
    documented.Reachable Node.WellFormed ∧
      documented.withoutDocs.analyze.conflicts =
        documented.analyze.conflicts.map (.map Node.withoutDocs) ∧
      (analyze ⟨[("b", openSource), ("c", callingSource)]⟩).isExecutable =
        documented.analyze.isExecutable := by
  have h := analysis_withoutDocs reachable_documented
  have hmade : ofSources [openSource, callingSource] =
      .ok ⟨[("b", openSource), ("c", callingSource)]⟩ := rfl
  have hopen := (reachable_contending hmade (by simp [contendingSources])).wellFormed
  exact ⟨reachable_documented, h.2.1, h.2.2.2 _ hopen rfl⟩

end Documented

end Program

end ProgramTree
