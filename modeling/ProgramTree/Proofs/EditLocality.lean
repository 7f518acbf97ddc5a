import ProgramTree.Proofs.RedefinedConflicts
import ProgramTree.Proofs.SourceOrder
import ProgramTree.Proofs.ValueEdits

namespace ProgramTree

/-- The same conflict; in a circle each source is exchanged for another. -/
def Conflict.mapSources (f : Node → Node) : Conflict → Conflict
  | borrowCycle borrow closing cycle => borrowCycle borrow closing (cycle.map f)
  | conflict => conflict

namespace BorrowGraph

variable {first second : BorrowGraph}

/-- A search follows the edges, whatever the sources are. -/
theorem run_congr (he : first.edges = second.edges) (search : Search) :
    search.run first = search.run second := by
  have hstep : ∀ search : Search, search.step first = search.step second := by
    intro search
    simp only [Search.step, edgesFrom, he]
  fun_induction Search.run first search with
  | case1 search hf => rw [Search.run, if_pos hf]
  | case2 search hf ih =>
    rw [ih, hstep]
    conv => rhs; rw [Search.run, if_neg hf]

theorem closedCycles_congr (hn : first.sourceCount = second.sourceCount)
    (he : first.edges = second.edges) : first.closedCycles = second.closedCycles := by
  have hinitial : Search.initial first = Search.initial second := by
    rw [Search.initial, Search.initial, hn]
  rw [closedCycles, closedCycles, hinitial, run_congr he]

/-- With other sources and the same edges, the same circles are reported of the other sources. -/
theorem cycleConflicts_of_sources (f : Node → Node) (hs : second.sources = first.sources.map f)
    (he : second.edges = first.edges) :
    second.cycleConflicts = first.cycleConflicts.map (.mapSources f) := by
  have hcount : second.sourceCount = first.sourceCount := by
    rw [sourceCount, sourceCount, hs, List.length_map]
  rw [cycleConflicts, cycleConflicts, closedCycles_congr hcount he, List.map_map]
  refine List.map_congr_left fun closed _ => ?_
  simp [conflictOf, Conflict.mapSources, hs, List.map_filterMap]

end BorrowGraph

namespace Node

/-- The node, or another one in the place of one of them. -/
def exchange (old new node : Node) : Node :=
  if node.same old then new else node

variable {old new node : Node}

theorem exchange_self : exchange old new old = new := by
  rw [exchange, if_pos (same_self old)]

theorem exchange_of_not_same (h : node.same old = false) : exchange old new node = node := by
  rw [exchange, if_neg (by simp [h])]

end Node

namespace Program

variable {next drawn made position : Nat} {nodes : List Node} {program : Program}
  {source edited definition rebuilt target : Node}

section Exchange

variable (history : History next nodes) (hp : program.Reachable (Made nodes))
  (hs : source ∈ program.sources)

include history hp hs

theorem eq_of_same {other : Node} (ho : other ∈ program.sources) (h : other.same source = true) :
    other = source :=
  history.eq_of_id_eq (hp.keyed.mem_nodes ho) (hp.keyed.mem_nodes hs) (by simpa [Node.same] using h)

/-- What is true of the source that comes in, as of the one that goes, is true of all. -/
theorem exchange_of_sources {motive : Node → Node → Prop} (he : motive source edited)
    (hr : ∀ other, motive other other) :
    ∀ other ∈ program.sources, motive other (.exchange source edited other) := by
  intro other ho
  cases hsame : other.same source with
  | true =>
    rw [eq_of_same history hp hs ho hsame, Node.exchange_self]
    exact he
  | false =>
    rw [Node.exchange_of_not_same hsame]
    exact hr other

/-- A source with the primary name of another one takes its place. -/
theorem insert_eq_translate (hk : edited.kind = source.kind)
    (hn : edited.declaredNames = source.declaredNames) :
    program.insert edited = .ok (program.translate id (.exchange source edited)) := by
  obtain ⟨entry, he, rfl⟩ := List.mem_map.mp hs
  obtain ⟨-, hkind, hname⟩ := hp.keyed.stored entry he
  have hprimary : edited.primaryName? = some entry.1 := by
    rw [Node.primaryName?, hn]
    exact hname
  have hany : program.entries.any (·.1 == entry.1) = true :=
    List.any_eq_true.mpr ⟨entry, he, by simp⟩
  have hentries : program.entries.map (fun other =>
        if other.1 == entry.1 then (entry.1, edited) else other) =
      (program.translate id (.exchange entry.2 edited)).entries := by
    rw [entries_translate]
    refine List.map_congr_left fun other ho => ?_
    by_cases hkey : other.1 = entry.1
    · have hother : other = entry := List.inj_on_of_nodup_map hp.keyed.nodup ho he hkey
      simp [hother, Node.exchange_self]
    · have hsame : other.2.same entry.2 = false := by
        by_contra hsame
        have heq := eq_of_same history hp hs (List.mem_map_of_mem ho) (by simpa using hsame)
        have hother := (hp.keyed.stored other ho).2.2
        rw [heq, hname] at hother
        exact hkey (Option.some.inj hother).symm
      simp [hkey, Node.exchange_of_not_same hsame]
  unfold Program.insert
  rw [if_pos (hk.trans hkind)]
  simp only [hprimary, hany, if_true, hentries]

theorem map_exchange_eq_set {index : Nat} (hi : program.sources[index]? = some source) :
    program.sources.map (.exchange source edited) = program.sources.set index edited := by
  obtain ⟨-, -, name, hname⟩ := hp.keyed.mem_sources hs
  refine List.ext_getElem? fun other => ?_
  rw [List.getElem?_map, List.getElem?_set]
  split
  next heq =>
    subst heq
    rw [hi, Option.map_some, Node.exchange_self, if_pos (List.getElem?_eq_some_iff.mp hi).1]
  next hne =>
    cases ho : program.sources[other]? with
    | none => rfl
    | some node =>
      have hsame : node.same source = false := by
        by_contra hsame
        have heq := eq_of_same history hp hs (List.mem_of_getElem? ho) (by simpa using hsame)
        subst heq
        exact hne (hp.keyed.index_unique hi ho hname hname)
      rw [Option.map_some, Node.exchange_of_not_same hsame]

end Exchange

/-- What an edit in the value of a definition changes in the analysis of a program. The rebuilt
source stands where the old one stood; of all trees the conflicts are the same but for the
definition, and so are the circles but for the source. -/
structure ValueEdited (program after : Program) (source edited definition rebuilt : Node) :
    Prop where
  place : ∀ index, program.sources[index]? = some source →
    after.sources = program.sources.set index edited
  conflicts : ∀ other, List.Forall₂ (Conflict.Redefined definition rebuilt)
    ((Globals.ofProgram program).sourceConflicts other)
    ((Globals.ofProgram after).sourceConflicts other)
  cycles : after.borrowCycles =
    program.borrowCycles.map (.mapSources (.exchange source edited))

section Rebuilt

variable (history : History next nodes) (hp : program.Reachable (Made nodes))
  (hs : source ∈ program.sources) (ht : source.topLevel[position]? = some definition)
  (hr : source.Rebuilt position definition edited rebuilt)

include history hp hs hr

theorem renamed_exchange :
    ∀ other ∈ program.sources, other.Renamed id (.exchange source edited other) :=
  exchange_of_sources history hp hs
    ⟨hr.outside.kind, by rw [hr.outside.declaredNames (by decide), List.map_id]⟩
    fun other => ⟨rfl, by rw [List.map_id]⟩

theorem indexOf?_exchange :
    (program.translate id (.exchange source edited)).indexOf? = program.indexOf? :=
  funext (indexOf?_translate Function.injective_id (renamed_exchange history hp hs hr))

theorem borrowCycles_exchange :
    (program.translate id (.exchange source edited)).borrowCycles =
      program.borrowCycles.map (.mapSources (.exchange source edited)) := by
  refine BorrowGraph.cycleConflicts_of_sources _ (sources_translate ..) ?_
  have hborrows : ∀ other ∈ program.sources,
      (Node.exchange source edited other).borrows = other.borrows :=
    exchange_of_sources (motive := fun old new => new.borrows = old.borrows) history hp hs
      (hr.outside.borrows (by decide)) fun _ => rfl
  rw [BorrowGraph.ofProgram, BorrowGraph.ofProgram, sources_translate, List.map_map]
  refine List.map_congr_left fun other ho => ?_
  rw [Function.comp_apply, BorrowGraph.edgesOf, BorrowGraph.edgesOf, hborrows other ho,
    indexOf?_exchange history hp hs hr]

include ht

theorem topLevel_exchange :
    List.Forall₂ (Node.Redefined definition rebuilt) (program.sources.flatMap Node.topLevel)
      ((program.translate id (.exchange source edited)).sources.flatMap Node.topLevel) := by
  have hrefl : ∀ node, Node.Redefined definition rebuilt node node := fun _ => .inl rfl
  rw [sources_translate, List.flatMap_map]
  refine forall₂_flatMap fun other ho => ?_
  refine exchange_of_sources (motive := fun old new =>
    List.Forall₂ (Node.Redefined definition rebuilt) old.topLevel new.topLevel) history hp hs
    ?_ (fun other => List.forall₂_same.mpr fun node _ => hrefl node) other ho
  rw [hr.topLevel]
  exact forall₂_set hrefl (.inr ⟨rfl, rfl⟩) ht

/-- The rebuilt definition has the names and the inputs of the old one, and stands where the old
one stood. So it is found by the same names. -/
theorem redefines_exchange :
    (Globals.ofProgram program).Redefines definition rebuilt
      (Globals.ofProgram (program.translate id (.exchange source edited))) := by
  refine ⟨hr.inside.declaredInputs (by decide), fun name => ?_, fun name => ?_⟩
  · rw [Globals.definition?_ofProgram, Globals.definition?_ofProgram]
    refine rel_find? (topLevel_exchange history hp hs ht hr) fun a b hab => ?_
    rcases hab with rfl | ⟨rfl, rfl⟩
    · rfl
    · rw [Node.declares, Node.declares, hr.inside.kind, hr.inside.declaredNames (by decide)]
  · have hget := get?_translate Function.injective_id (renamed_exchange history hp hs hr) name
    have hsource : (Globals.ofProgram (program.translate id (.exchange source edited))).source?
        name = ((Globals.ofProgram program).source? name).map (.exchange source edited) := hget
    rw [hsource, Option.isNone_map]

end Rebuilt

/-- An edit in the value of a definition at the top level of a source is local: the source can be
put back in its place, the other sources keep their conflicts, and the circles stay. -/
theorem valueEdited_of_replaceWithin (history : History next nodes)
    (hp : program.Reachable (Made nodes)) (hs : source ∈ program.sources) {place : Occurrence}
    (ho : source.occurrences.find? (·.node.same target) = some place)
    (hi : source.InValue position definition place.path) {replacement : Option Node}
    (he : source.replaceWithin target replacement drawn = .ok edited made) :
    ∃ after rebuilt, program.insert edited = .ok after ∧
      source.Rebuilt position definition edited rebuilt ∧
      program.ValueEdited after source edited definition rebuilt := by
  have hsource := (hp.keyed.mem_sources hs).1
  obtain ⟨rebuilt, hr⟩ := Node.exists_rebuilt history hsource.1 hsource.2
    (Node.pathTo?_of_find? ho) hi he
  have hinsert := insert_eq_translate history hp hs hr.outside.kind
    (hr.outside.declaredNames (by decide))
  have hredefines := redefines_exchange history hp hs hi.topLevel hr
  refine ⟨program.translate id (.exchange source edited), rebuilt, hinsert, hr, ?_⟩
  constructor
  · intro index hindex
    rw [sources_translate, map_exchange_eq_set history hp hs hindex]
  · exact hredefines.sourceConflicts
  · exact borrowCycles_exchange history hp hs hr

section Valued

/-- The structure `f`, which takes an input and has an empty block for its value. -/
def valuedForm : Node :=
  .tree 44 .structureDefinition
    [("docs", .optional none), ("kind", .one (.token 13 .type "•")),
     ("names", .one (.tree 15 .names [("names", .list [.token 14 .name "f"])])),
     ("open", .optional (some (.token 11 .evalOpen "("))), ("inputs", .list [formInput]),
     ("close", .optional (some (.token 12 .evalClose ")"))),
     ("expression", .optional (some (bodyOver 43 [])))]

def valuedSource : Node :=
  .tree 48 .source
    [("names", .one (.tree 46 .names [("names", .list [.token 45 .name "h"])])),
     ("borrows", .list []), ("body", .one (bodyOver 47 [valuedForm]))]

def valuedNodes : List Node :=
  valuedSource :: bodyOver 47 [valuedForm] ::
  .tree 46 .names [("names", .list [.token 45 .name "h"])] :: .token 45 .name "h" ::
  valuedForm :: bodyOver 43 [] :: contendingNodes

theorem history_valuedNodes : History 49 valuedNodes := by
  unfold valuedNodes
  iterate 6
    refine .construct ?_ rfl
      (by simp [Node.children, Node.fields, Field.nodes, bodyOver, valuedForm, valuedSource,
        contendingNodes])
  exact history_contendingNodes

def valued : Program :=
  ⟨[("h", valuedSource), ("c", callingSource)]⟩

theorem reachable_valued : valued.Reachable (Made valuedNodes) := by
  have hmade : ofSources valued.sources = .ok valued := rfl
  refine .ofSources (fun source hs => ?_) hmade
  rcases List.mem_pair.mp hs with rfl | rfl
  all_goals exact ⟨by simp [valuedNodes, contendingNodes], by decide +kernel⟩

theorem pathTo?_valueBlock :
    Node.pathTo? (bodyOver 43 []) valuedSource = some (Node.valuePath 0) := by
  decide +kernel

/-- The value of the structure is removed. The call of it in the other source still lacks an
input. -/
theorem valueEdited_of_replaceWithin_valued :
    History 49 valuedNodes ∧ valued.Reachable (Made valuedNodes) ∧
      ∃ edited made after rebuilt,
        valuedSource.replaceWithin (bodyOver 43 []) none 49 = .ok edited made ∧
        valued.insert edited = .ok after ∧ valuedSource.Rebuilt 0 valuedForm edited rebuilt ∧
        valued.ValueEdited after valuedSource edited valuedForm rebuilt := by
  have hpath := pathTo?_valueBlock
  rw [Node.pathTo?_eq_find?] at hpath
  obtain ⟨place, hplace, hp⟩ := Option.map_eq_some_iff.mp hpath
  have hin : valuedSource.InValue 0 valuedForm place.path := ⟨rfl, rfl, hp ▸ List.prefix_rfl⟩
  have hrun : ∃ edited made,
      valuedSource.replaceWithin (bodyOver 43 []) none 49 = .ok edited made := by
    simp only [Node.replaceWithin, Node.rebuild, pathTo?_valueBlock]
    exact ⟨_, _, rfl⟩
  obtain ⟨edited, made, he⟩ := hrun
  obtain ⟨after, rebuilt, hresult⟩ := valueEdited_of_replaceWithin history_valuedNodes
    reachable_valued (by simp [valued, sources]) hplace hin he
  exact ⟨history_valuedNodes, reachable_valued, edited, made, after, rebuilt, he, hresult⟩

end Valued

end Program

end ProgramTree
