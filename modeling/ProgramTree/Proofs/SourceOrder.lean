import Mathlib.Data.List.Perm.Subperm
import ProgramTree.Proofs.IdentityBlindness
import ProgramTree.Proofs.VerdictLookups

namespace ProgramTree

section Order

variable {α β : Type} {a b : α} {before after : List α}

theorem pair_sublist_of_mem (hb : b ∈ before ++ a :: after) (hn : b ∉ before) (hne : b ≠ a) :
    [a, b].Sublist (before ++ a :: after) := by
  have hafter : b ∈ after := by
    rcases List.mem_append.mp hb with hm | hm
    · exact (hn hm).elim
    · exact (List.mem_cons.mp hm).resolve_left hne
  exact ((List.singleton_sublist.mpr hafter).cons_cons a).trans (List.sublist_append_right ..)

theorem not_pair_sublist (hn : (before ++ b :: after).Nodup) (ha : a ∉ before) (hne : a ≠ b) :
    ¬ [a, b].Sublist (before ++ b :: after) := by
  intro h
  have hlater : b ∈ after := by
    induction before with
    | nil =>
      cases h with
      | cons _ h => exact h.subset (by simp)
      | cons_cons => exact (hne rfl).elim
    | cons item rest ih =>
      rw [List.cons_append] at h hn
      cases h with
      | cons _ h => exact ih (List.nodup_cons.mp hn).2 (fun hm => ha (List.mem_cons_of_mem _ hm)) h
      | cons_cons => exact (ha List.mem_cons_self).elim
  exact (List.nodup_cons.mp (List.nodup_append.mp hn).2.1).1 hlater

theorem exists_pair_of_sublist_map {items : List α} {f : α → β} {x y : β}
    (h : [x, y].Sublist (items.map f)) : ∃ a b, f a = x ∧ f b = y ∧ [a, b].Sublist items := by
  obtain ⟨pair, hpair, he⟩ := List.sublist_map_iff.mp h
  obtain ⟨a, rest, rfl, ha, hrest⟩ := List.map_eq_cons_iff.mp he.symm
  obtain ⟨b, others, rfl, hb, hothers⟩ := List.map_eq_cons_iff.mp hrest
  cases List.map_eq_nil_iff.mp hothers
  exact ⟨a, b, ha, hb, hpair⟩

/-- The first value found is the same in another order of the items, as long as items with
different values keep theirs. -/
theorem findSome?_eq_of_perm {first second : List α} {f : α → Option β}
    (hp : first.Perm second) (hn : second.Nodup)
    (ho : ∀ a b x y, f a = some x → f b = some y → x ≠ y → [a, b].Sublist first →
      [a, b].Sublist second) : first.findSome? f = second.findSome? f := by
  cases hf : first.findSome? f with
  | none =>
    rw [List.findSome?_eq_none_iff] at hf
    exact (List.findSome?_eq_none_iff.mpr fun item hi => hf item (hp.mem_iff.mpr hi)).symm
  | some x =>
    obtain ⟨before, a, after, rfl, ha, hbefore⟩ := List.findSome?_eq_some_iff.mp hf
    have hsome : (second.findSome? f).isSome = true :=
      List.findSome?_isSome_iff.mpr ⟨a, hp.mem_iff.mp (by simp), by simp [ha]⟩
    obtain ⟨y, hs⟩ := Option.isSome_iff_exists.mp hsome
    obtain ⟨before', b, after', rfl, hb, hbefore'⟩ := List.findSome?_eq_some_iff.mp hs
    rw [hs, Option.some.injEq]
    -- Each list reaches its own item first, so the two items change places.
    by_contra hxy
    have hne : b ≠ a := by
      rintro rfl
      exact hxy (Option.some.inj (ha.symm.trans hb))
    have hnb : b ∉ before := by
      intro hm
      simp [hbefore b hm] at hb
    have hna : a ∉ before' := by
      intro hm
      simp [hbefore' a hm] at ha
    have hfirst := pair_sublist_of_mem (hp.mem_iff.mpr (by simp)) hnb hne
    exact not_pair_sublist hn hna hne.symm (ho a b x y ha hb hxy hfirst)

end Order

namespace Node

/-- The first definition of a name at the top level of a source. -/
def topDefinition? (source : Node) (name : String) : Option Node :=
  source.topLevel.find? fun statement => statement.kind.isDefinition && statement.declares name

theorem declares_erase {node : Node} (h : node.WellFormed) (name : String) :
    node.erase.declares name = node.declares name :=
  Relabelling.translation_erasing.declares h name

theorem primaryName?_erase {node : Node} (h : node.WellFormed) :
    node.erase.primaryName? = node.primaryName? := by
  have hname := Relabelling.translation_erasing.primaryName? h
  rwa [Option.map_id_fun, id_eq] at hname

theorem topLevel_erase (node : Node) : node.erase.topLevel = node.topLevel.map erase :=
  Relabelling.translation_erasing.topLevel node

theorem topDefinition?_erase {source : Node} (h : source.WellFormed) (name : String) :
    source.erase.topDefinition? name = (source.topDefinition? name).map erase := by
  rw [topDefinition?, topDefinition?, topLevel_erase]
  refine find?_map_of_agree fun statement hs => ?_
  rw [kind_erase, declares_erase (h.of_mem_topLevel hs)]

theorem signature_erase {definition : Node} (h : definition.WellFormed) :
    definition.erase.signature = definition.signature := by
  rw [signature, signature, Relabelling.translation_erasing.declaredInputs, List.map_map]
  refine List.map_congr_left fun parameter hp => ?_
  have hnames := Relabelling.translation_erasing.declaredNames (h.of_mem_declaredInputs hp)
  rw [List.map_id_fun, id_eq] at hnames
  exact Prod.ext hnames (Relabelling.translation_erasing.isRequired parameter)

/-- What callers see of the definition that a source has of a name. -/
def topSignature? (source : Node) (name : String) : Option (List (List String × Bool)) :=
  (source.topDefinition? name).map signature

theorem topSignature?_erase {source : Node} (h : source.WellFormed) (name : String) :
    source.erase.topSignature? name = source.topSignature? name := by
  rw [topSignature?, topSignature?, topDefinition?_erase h, Option.map_map]
  cases hd : source.topDefinition? name with
  | none => rfl
  | some definition =>
    exact congrArg some (signature_erase (h.of_mem_topLevel (List.mem_of_find?_eq_some hd)))

end Node

theorem Globals.map_definition?_eq_findSome? (program : Program) (name : String) :
    ((ofProgram program).definition? name).map Node.signature =
      program.entries.findSome? (·.2.topSignature? name) := by
  rw [definition?_ofProgram, List.find?_flatMap, Program.sources, List.findSome?_map,
    List.map_findSome?]
  rfl

namespace Program

/-- Two sources for which it matters which one comes first: callers see different inputs of what
each defines under a name, or both share a name that is the primary name of no source. -/
inductive Contend (program : Program) (first second : Node) : Prop
  | definition {name : String} {a b : Node} (ha : first.topDefinition? name = some a)
      (hb : second.topDefinition? name = some b) (hne : a.signature ≠ b.signature) :
      Contend program first second
  | name {name : String} (hf : first.declares name = true) (hs : second.declares name = true)
      (hn : ∀ source ∈ program.sources, source.primaryName? ≠ some name) :
      Contend program first second

/-- Contending sources of one program stand in the same order in the other. -/
def OrderKept (p q : Program) : Prop :=
  ∀ first second : String × Node, p.Contend first.2 second.2 →
    [first, second].Sublist p.entries → [first.1, second.1].Sublist (q.entries.map (·.1))

variable {given : Node → Prop} {first second p q : Program} {nodes : List Node} {next : Nat}

theorem find?_sources_of_perm {test : Node → Bool} (hperm : first.entries.Perm second.entries)
    (hn : second.entries.Nodup)
    (ho : ∀ a b : String × Node, test a.2 = true → test b.2 = true → a.2 ≠ b.2 →
      [a, b].Sublist first.entries → [a, b].Sublist second.entries) :
    first.sources.find? test = second.sources.find? test := by
  rw [sources, sources, List.find?_eq_findSome?_guard, List.find?_eq_findSome?_guard,
    List.findSome?_map, List.findSome?_map]
  refine findSome?_eq_of_perm hperm hn fun a b x y hx hy hne hab => ?_
  obtain ⟨rfl, ha⟩ := Option.guard_eq_some_iff.mp hx
  obtain ⟨rfl, hb⟩ := Option.guard_eq_some_iff.mp hy
  exact ho a b ha hb hne hab

theorem Keyed.find?_primaryName?_of_perm (hf : Keyed given first) (hs : Keyed given second)
    (hperm : first.entries.Perm second.entries) (name : String) :
    first.sources.find? (·.primaryName? == some name) =
      second.sources.find? (·.primaryName? == some name) := by
  refine find?_sources_of_perm hperm hs.nodup.of_map fun a b ha hb hne hab => ?_
  have hma : a ∈ first.entries := hab.subset (by simp)
  have hmb : b ∈ first.entries := hab.subset (by simp)
  have hkeys : a.1 = b.1 := by
    have hpa := (hf.stored a hma).2.2
    have hpb := (hf.stored b hmb).2.2
    simp only [hpa, hpb, beq_iff_eq, Option.some.injEq] at ha hb
    rw [ha, hb]
  exact (hne (congrArg (·.2) (List.inj_on_of_nodup_map hf.nodup hma hmb hkeys))).elim

theorem entries_erasing (p : Program) :
    (p.relabel .erasing).entries = p.entries.map fun entry => (entry.1, entry.2.erase) := by
  rw [entries_relabel]
  exact List.map_congr_left fun entry _ => Prod.ext rfl (Node.relabel_erasing entry.2)

theorem equal_iff : (p == q) = true ↔ p.size = q.size ∧ ∀ entry ∈ p.entries,
    ∃ source, q.entries.lookup entry.1 = some source ∧ (entry.2 == source) = true := by
  change p.equal q = true ↔ _
  simp [equal, Option.any_eq_true]

/-- Without numbers, equal programs have the same sources under the same names. -/
theorem perm_erasing_of_equal (history : History next nodes) (hp : p.Reachable (Made nodes))
    (hq : q.Reachable (Made nodes)) (he : (p == q) = true) :
    (p.relabel .erasing).entries.Perm (q.relabel .erasing).entries := by
  obtain ⟨hsize, hall⟩ := equal_iff.mp he
  have hsub : (p.relabel .erasing).entries ⊆ (q.relabel .erasing).entries := by
    intro entry hm
    rw [entries_erasing] at hm ⊢
    obtain ⟨old, ho, rfl⟩ := List.mem_map.mp hm
    obtain ⟨source, hl, hs⟩ := hall old ho
    obtain ⟨before, after, hentries, -⟩ := List.lookup_eq_some_iff.mp hl
    have hmem : (old.1, source) ∈ q.entries := by simp [hentries]
    have herase : old.2.erase = source.erase :=
      (history.equal_iff_erase_eq (hp.keyed.stored old ho).1.1
        (hq.keyed.stored _ hmem).1.1).mp hs
    exact List.mem_map.mpr ⟨(old.1, source), hmem, by rw [herase]⟩
  have hlen : (q.relabel .erasing).entries.length ≤ (p.relabel .erasing).entries.length := by
    rw [entries_erasing, entries_erasing, List.length_map, List.length_map]
    exact hsize.ge
  exact (List.subperm_of_subset hp.keyed_erasing.nodup.of_map hsub).perm_of_length_le hlen

theorem Keyed.pair_sublist (hk : Keyed given p) {a b : String × Node} (ha : a ∈ p.entries)
    (hb : b ∈ p.entries) (h : [a.1, b.1].Sublist (p.entries.map (·.1))) :
    [a, b].Sublist p.entries := by
  obtain ⟨first, second, hf, hs, hpair⟩ := exists_pair_of_sublist_map h
  have hfirst := List.inj_on_of_nodup_map hk.nodup (hpair.subset (by simp)) ha hf
  have hsecond := List.inj_on_of_nodup_map hk.nodup (hpair.subset (by simp)) hb hs
  rwa [hfirst, hsecond] at hpair

theorem Contend.of_topSignature?_erase {source other : Node} {name : String}
    {x y : List (List String × Bool)} (hs : source.WellFormed) (ho : other.WellFormed)
    (hx : source.erase.topSignature? name = some x) (hy : other.erase.topSignature? name = some y)
    (hne : x ≠ y) : p.Contend source other := by
  rw [Node.topSignature?_erase hs] at hx
  rw [Node.topSignature?_erase ho] at hy
  obtain ⟨definition, hd, rfl⟩ := Option.map_eq_some_iff.mp hx
  obtain ⟨rival, hr, rfl⟩ := Option.map_eq_some_iff.mp hy
  exact .definition hd hr hne

section Kept

variable (history : History next nodes) (hp : p.Reachable (Made nodes))
  (hq : q.Reachable (Made nodes)) (he : (p == q) = true) (ho : p.OrderKept q)

include history hp hq he ho

theorem OrderKept.pair_sublist {a b : String × Node}
    (hab : [a, b].Sublist (p.relabel .erasing).entries)
    (hc : ∀ first ∈ p.entries, ∀ second ∈ p.entries, first.2.erase = a.2 → second.2.erase = b.2 →
      p.Contend first.2 second.2) : [a, b].Sublist (q.relabel .erasing).entries := by
  have hperm := perm_erasing_of_equal history hp hq he
  have hnames : (q.relabel .erasing).entries.map (·.1) = q.entries.map (·.1) := by
    rw [entries_erasing, List.map_map]
    rfl
  refine hq.keyed_erasing.pair_sublist (hperm.mem_iff.mp (hab.subset (by simp)))
    (hperm.mem_iff.mp (hab.subset (by simp))) ?_
  rw [entries_erasing] at hab
  obtain ⟨first, second, rfl, rfl, hpair⟩ := exists_pair_of_sublist_map hab
  rw [hnames]
  exact ho first second
    (hc first (hpair.subset (by simp)) second (hpair.subset (by simp)) rfl rfl) hpair

theorem OrderKept.map_definition?_eq (name : String) :
    ((Globals.ofProgram (p.relabel .erasing)).definition? name).map Node.signature =
      ((Globals.ofProgram (q.relabel .erasing)).definition? name).map Node.signature := by
  have hperm := perm_erasing_of_equal history hp hq he
  rw [Globals.map_definition?_eq_findSome?, Globals.map_definition?_eq_findSome?]
  refine findSome?_eq_of_perm hperm hq.keyed_erasing.nodup.of_map fun a b x y hx hy hne hab => ?_
  refine ho.pair_sublist history hp hq he hab fun first hf second hs hfa hsb => ?_
  rw [← hfa] at hx
  rw [← hsb] at hy
  exact .of_topSignature?_erase (hp.keyed.stored first hf).1.2 (hp.keyed.stored second hs).1.2
    hx hy hne

theorem OrderKept.get?_eq : (p.relabel .erasing).get? = (q.relabel .erasing).get? := by
  have hperm := perm_erasing_of_equal history hp hq he
  have hprimary := hp.keyed_erasing.find?_primaryName?_of_perm hq.keyed_erasing hperm
  funext name
  rw [hp.keyed_erasing.get?_eq, hq.keyed_erasing.get?_eq, ← hprimary]
  -- One source at most has the primary name. The order counts only where none has.
  cases hfound : (p.relabel .erasing).sources.find? (·.primaryName? == some name) with
  | some source => rfl
  | none =>
    have hnone : ∀ source ∈ p.sources, source.primaryName? ≠ some name := by
      intro source hs hn
      have herase : source.erase ∈ (p.relabel .erasing).sources := by
        rw [sources_erasing]
        exact List.mem_map_of_mem hs
      have hmiss := List.find?_eq_none.mp hfound source.erase herase
      rw [Node.primaryName?_erase (hp.keyed.wellFormed source hs), hn] at hmiss
      simp at hmiss
    rw [Option.none_or, Option.none_or]
    refine find?_sources_of_perm hperm hq.keyed_erasing.nodup.of_map fun a b ha hb _ hab => ?_
    refine ho.pair_sublist history hp hq he hab fun first hf second hs hfa hsb => ?_
    rw [← hfa, Node.declares_erase (hp.keyed.stored first hf).1.2] at ha
    rw [← hsb, Node.declares_erase (hp.keyed.stored second hs).1.2] at hb
    exact .name ha hb hnone

end Kept

/-- Equal programs get one verdict, even if their sources stand in different orders, as long as
sources that contend for a name keep theirs. -/
theorem isExecutable_of_equal (history : History next nodes) (hp : p.Reachable (Made nodes))
    (hq : q.Reachable (Made nodes)) (he : (p == q) = true) (ho : p.OrderKept q) :
    p.analyze.isExecutable = q.analyze.isExecutable := by
  have hsources : (p.relabel .erasing).sources.Perm (q.relabel .erasing).sources :=
    (perm_erasing_of_equal history hp hq he).map _
  rw [← isExecutable_analyze_erasing hp, ← isExecutable_analyze_erasing hq]
  exact isExecutable_of_lookups hp.keyed_erasing hq.keyed_erasing hsources
    (ho.map_definition?_eq history hp hq he) (ho.get?_eq history hp hq he)

section Contending

def bodyOver (id : Nat) (statements : List Node) : Node :=
  .tree id .block
    [("open", .optional none), ("statements", .list statements), ("close", .optional none)]

/-- The structure `f`, without inputs. -/
def closedForm : Node :=
  .tree 3 .structureDefinition
    [("docs", .optional none), ("kind", .one (.token 0 .type "•")),
     ("names", .one (.tree 2 .names [("names", .list [.token 1 .name "f"])])),
     ("open", .optional none), ("inputs", .list []), ("close", .optional none),
     ("expression", .optional none)]

def formInput : Node :=
  .tree 10 .bind
    [("names", .one (.tree 9 .names [("names", .list [.token 8 .name "x"])])),
     ("colon", .optional none), ("value", .optional none)]

/-- The structure `f`, which takes an input. -/
def openForm : Node :=
  .tree 16 .structureDefinition
    [("docs", .optional none), ("kind", .one (.token 13 .type "•")),
     ("names", .one (.tree 15 .names [("names", .list [.token 14 .name "f"])])),
     ("open", .optional (some (.token 11 .evalOpen "("))), ("inputs", .list [formInput]),
     ("close", .optional (some (.token 12 .evalClose ")"))), ("expression", .optional none)]

def formCall : Node :=
  .tree 25 .evaluate
    [("fun", .one (.tree 22 .reference [("name", .one (.token 21 .name "f"))])),
     ("open", .one (.token 23 .evalOpen "(")), ("inputs", .list []),
     ("close", .one (.token 24 .evalClose ")"))]

def closedSource : Node :=
  .tree 7 .source
    [("names", .one (.tree 5 .names [("names", .list [.token 4 .name "a"])])),
     ("borrows", .list []), ("body", .one (bodyOver 6 [closedForm]))]

def openSource : Node :=
  .tree 20 .source
    [("names", .one (.tree 18 .names [("names", .list [.token 17 .name "b"])])),
     ("borrows", .list []), ("body", .one (bodyOver 19 [openForm]))]

def callingSource : Node :=
  .tree 29 .source
    [("names", .one (.tree 27 .names [("names", .list [.token 26 .name "c"])])),
     ("borrows", .list []), ("body", .one (bodyOver 28 [formCall]))]

/-- The source `d`, also `x`, which borrows from `x`. -/
def borrowingSource : Node :=
  .tree 37 .source
    [("names", .one (.tree 35 .names
       [("names", .list [.token 33 .name "d", .token 34 .name "x"])])),
     ("borrows", .list [borrowOf 30 "x"]), ("body", .one (bodyOver 36 []))]

def lendingSource : Node :=
  .tree 42 .source
    [("names", .one (.tree 40 .names
       [("names", .list [.token 38 .name "e", .token 39 .name "x"])])),
     ("borrows", .list []), ("body", .one (bodyOver 41 []))]

def contendingNodes : List Node :=
  [lendingSource, bodyOver 41 [],
   .tree 40 .names [("names", .list [.token 38 .name "e", .token 39 .name "x"])],
   .token 39 .name "x", .token 38 .name "e",
   borrowingSource, bodyOver 36 [],
   .tree 35 .names [("names", .list [.token 33 .name "d", .token 34 .name "x"])],
   .token 34 .name "x", .token 33 .name "d",
   borrowOf 30 "x", .token 31 .name "x", .token 30 .borrow "↓",
   callingSource, bodyOver 28 [formCall],
   .tree 27 .names [("names", .list [.token 26 .name "c"])], .token 26 .name "c",
   formCall, .token 24 .evalClose ")", .token 23 .evalOpen "(",
   .tree 22 .reference [("name", .one (.token 21 .name "f"))], .token 21 .name "f",
   openSource, bodyOver 19 [openForm],
   .tree 18 .names [("names", .list [.token 17 .name "b"])], .token 17 .name "b",
   openForm, .tree 15 .names [("names", .list [.token 14 .name "f"])], .token 14 .name "f",
   .token 13 .type "•", .token 12 .evalClose ")", .token 11 .evalOpen "(",
   formInput, .tree 9 .names [("names", .list [.token 8 .name "x"])], .token 8 .name "x",
   closedSource, bodyOver 6 [closedForm],
   .tree 5 .names [("names", .list [.token 4 .name "a"])], .token 4 .name "a",
   closedForm, .tree 2 .names [("names", .list [.token 1 .name "f"])], .token 1 .name "f",
   .token 0 .type "•"]

theorem history_contendingNodes : History 43 contendingNodes := by
  unfold contendingNodes
  iterate 43
    refine .construct ?_ rfl
      (by simp [Node.children, Node.fields, Field.nodes, borrowOf, bodyOver, closedForm, formInput,
        openForm, formCall, closedSource, openSource, callingSource, borrowingSource,
        lendingSource])
  exact .start

def contendingSources : List Node :=
  [closedSource, openSource, callingSource, borrowingSource, lendingSource]

theorem made_contending : ∀ source ∈ contendingSources, Made contendingNodes source := by
  intro source hs
  simp only [contendingSources, List.mem_cons, List.not_mem_nil, or_false] at hs
  rcases hs with rfl | rfl | rfl | rfl | rfl
  all_goals exact ⟨by simp [contendingNodes], by decide +kernel⟩

theorem reachable_contending {sources : List Node} (h : ofSources sources = .ok p)
    (hs : sources ⊆ contendingSources) : p.Reachable (Made contendingNodes) :=
  .ofSources (fun source hm => made_contending source (hs hm)) h

def closedFirst : Program :=
  ⟨[("a", closedSource), ("b", openSource), ("c", callingSource)]⟩

def openFirst : Program :=
  ⟨[("b", openSource), ("a", closedSource), ("c", callingSource)]⟩

def callBetween : Program :=
  ⟨[("a", closedSource), ("c", callingSource), ("b", openSource)]⟩

def borrowerFirst : Program :=
  ⟨[("d", borrowingSource), ("e", lendingSource)]⟩

def lenderFirst : Program :=
  ⟨[("e", lendingSource), ("d", borrowingSource)]⟩

theorem reachable_lenderFirst : lenderFirst.Reachable (Made contendingNodes) := by
  have hfirst : ofSources [lendingSource] = .ok ⟨[("e", lendingSource)]⟩ := rfl
  refine .insert (reachable_contending hfirst (by simp [contendingSources]))
    (made_contending borrowingSource (by simp [contendingSources])) rfl

theorem reachable_borrowerFirst : borrowerFirst.Reachable (Made contendingNodes) := by
  have hfirst : ofSources [borrowingSource] = .ok ⟨[("d", borrowingSource)]⟩ := rfl
  refine .insert (reachable_contending hfirst (by simp [contendingSources]))
    (made_contending lendingSource (by simp [contendingSources])) rfl

theorem reachable_closedFirst : closedFirst.Reachable (Made contendingNodes) := by
  have h : ofSources closedFirst.sources = .ok closedFirst := rfl
  exact reachable_contending h (by simp [sources, closedFirst, contendingSources])

theorem reachable_openFirst : openFirst.Reachable (Made contendingNodes) := by
  have h : ofSources openFirst.sources = .ok openFirst := rfl
  exact reachable_contending h (by simp [sources, openFirst, contendingSources])

theorem reachable_callBetween : callBetween.Reachable (Made contendingNodes) := by
  have h : ofSources callBetween.sources = .ok callBetween := rfl
  exact reachable_contending h (by simp [sources, callBetween, contendingSources])

/-- Which of two structures a call means, and which of two sources a borrow means, is up to the
order, and so is the verdict. -/
theorem isExecutable_ne_of_reordered :
    History 43 contendingNodes ∧
    (closedFirst.Reachable (Made contendingNodes) ∧ openFirst.Reachable (Made contendingNodes) ∧
      (closedFirst == openFirst) = true ∧
      closedFirst.analyze.isExecutable = true ∧ openFirst.analyze.isExecutable = false) ∧
    lenderFirst.Reachable (Made contendingNodes) ∧ borrowerFirst.Reachable (Made contendingNodes) ∧
      (lenderFirst == borrowerFirst) = true ∧
      lenderFirst.analyze.isExecutable = true ∧ borrowerFirst.analyze.isExecutable = false := by
  refine ⟨history_contendingNodes, ⟨reachable_closedFirst, reachable_openFirst, ?_, ?_, ?_⟩,
    reachable_lenderFirst, reachable_borrowerFirst, ?_, ?_, ?_⟩
  all_goals decide +kernel

theorem not_contend_calling : ¬ callBetween.Contend callingSource openSource := by
  rintro (⟨ha, -, -⟩ | ⟨hf, hs, -⟩)
  · cases ha
  · have hcalling : callingSource.declaredNames = ["c"] := rfl
    have hopen : openSource.declaredNames = ["b"] := rfl
    simp_all [Node.declares]

theorem orderKept_callBetween : callBetween.OrderKept closedFirst := by
  intro first second hc h
  have hcases : first = ("c", callingSource) ∧ second = ("b", openSource) ∨
      first = ("a", closedSource) ∧
        (second = ("b", openSource) ∨ second = ("c", callingSource)) := by
    simpa [callBetween, List.cons_sublist_cons'] using h
  rcases hcases with ⟨rfl, rfl⟩ | ⟨rfl, rfl | rfl⟩
  · exact (not_contend_calling hc).elim
  · decide
  · decide

theorem isExecutable_of_equal_callBetween :
    History 43 contendingNodes ∧ callBetween.Reachable (Made contendingNodes) ∧
      closedFirst.Reachable (Made contendingNodes) ∧ (callBetween == closedFirst) = true ∧
      callBetween.OrderKept closedFirst ∧
      callBetween.analyze.isExecutable = closedFirst.analyze.isExecutable := by
  have he : (callBetween == closedFirst) = true := by decide +kernel
  exact ⟨history_contendingNodes, reachable_callBetween, reachable_closedFirst, he,
    orderKept_callBetween, isExecutable_of_equal history_contendingNodes reachable_callBetween
      reachable_closedFirst he orderKept_callBetween⟩

end Contending

end Program

end ProgramTree
