import ProgramTree.Explanation
import ProgramTree.Proofs.CycleCover
import ProgramTree.Proofs.History
import ProgramTree.Proofs.Parts

namespace ProgramTree

namespace Program

/-- A borrow of one source names another source of the program. -/
def BorrowsBy (program : Program) (borrow source target : Node) : Prop :=
  borrow ∈ source.borrows ∧
    ∃ name index, borrow.borrowedSource? = some name ∧ program.SourceNamed name index target

/-- Distinct sources that borrow from each other in a circle, the borrow that leads from the first
into the circle, and the borrow that closes it. -/
structure CircleReport (program : Program) (borrow closing : Node) (cycle : List Node) : Prop where
  distinct : cycle.Pairwise fun a b => a.same b = false
  sources : ∀ source ∈ cycle, source ∈ program.sources
  linked : cycle.IsChain fun source target => ∃ between, program.BorrowsBy between source target
  closed : ∃ first last, cycle.head? = some first ∧ cycle.getLast? = some last ∧
    program.BorrowsBy closing last first
  entered : ∀ first second, cycle[0]? = some first → cycle[1]? = some second →
    program.BorrowsBy borrow first second
  alone : cycle.length = 1 → borrow = closing
  same_iff : borrow.same closing = true ↔ cycle.length = 1
  sites : (Conflict.borrowCycle borrow closing cycle).sites.map (·.node) =
    if cycle.length = 1 then [borrow] else [borrow, closing]

variable {next : Nat} {nodes : List Node} {program : Program}

theorem SourceNamed.unique {given : Node → Prop} (hk : Keyed given program) {name : String}
    {i j : Nat} {a b : Node} (ha : program.SourceNamed name i a)
    (hb : program.SourceNamed name j b) : i = j := by
  have hi := hk.indexOf?_eq_some_iff.mpr ⟨a, ha⟩
  have hj := hk.indexOf?_eq_some_iff.mpr ⟨b, hb⟩
  exact Option.some.inj (hi.symm.trans hj)

theorem borrowsBy_of_edgeAt {given : Node → Prop} (hk : Keyed given program) {index position : Nat}
    {edge : BorrowEdge} {source target : Node}
    (he : (BorrowGraph.ofProgram program).edgeAt (index, position) = some edge)
    (hs : program.sources[index]? = some source) (ht : program.sources[edge.target]? = some target) :
    program.BorrowsBy edge.borrow source target := by
  obtain ⟨other, name, ho, hb, hn, hi⟩ :=
    BorrowGraph.mem_edgesFrom_ofProgram.mp (List.mem_of_getElem? he)
  cases Option.some.inj (ho.symm.trans hs)
  obtain ⟨found, hf⟩ := hk.indexOf?_eq_some_iff.mp hi
  cases Option.some.inj (hf.at_index.symm.trans ht)
  exact ⟨hb, name, edge.target, hn, hf⟩

/-- Sources at different positions have different numbers. -/
theorem index_eq_of_same (history : History next nodes) (hk : Keyed (· ∈ nodes) program) {i j : Nat}
    {a b : Node} (ha : program.sources[i]? = some a) (hb : program.sources[j]? = some b)
    (hs : a.same b = true) : i = j := by
  obtain ⟨ham, _, name, hn⟩ := hk.mem_sources (List.mem_of_getElem? ha)
  obtain ⟨hbm, _⟩ := hk.mem_sources (List.mem_of_getElem? hb)
  have he : a = b := history.eq_of_id_eq ham hbm (by simpa [Node.same] using hs)
  exact hk.index_unique ha hb hn (he ▸ hn)

theorem mem_nodes_of_mem_borrows (history : History next nodes) {source borrow : Node}
    (hs : source ∈ nodes) (hb : borrow ∈ source.borrows) : borrow ∈ nodes :=
  history.mem_of_mem_children hs (source.borrows_sublist_children.subset hb)

/-- Borrows of different sources are different nodes, in whatever sources they stand. -/
theorem not_same_of_borrowsBy (history : History next nodes) (hk : Keyed (· ∈ nodes) program)
    {borrow closing a b first second : Node} (ha : a ∈ program.sources) (hb : b ∈ program.sources)
    (hs : program.BorrowsBy borrow a second) (hc : program.BorrowsBy closing b first)
    (hne : first.same second = false) : borrow.same closing = false := by
  by_contra hsame
  have he : borrow = closing := history.eq_of_id_eq
    (mem_nodes_of_mem_borrows history (hk.mem_sources ha).1 hs.1)
    (mem_nodes_of_mem_borrows history (hk.mem_sources hb).1 hc.1)
    (by simpa [Node.same] using hsame)
  subst he
  obtain ⟨name, i, hn, hi⟩ := hs.2
  obtain ⟨name', j, hn', hj⟩ := hc.2
  cases Option.some.inj (hn.symm.trans hn')
  cases hi.unique hk hj
  cases Option.some.inj (hi.at_index.symm.trans hj.at_index)
  simp [Node.same] at hne

section Circle

variable {closed : ClosedCycle}

theorem pairwise_circleSources (history : History next nodes) (hk : Keyed (· ∈ nodes) program)
    (h : closed.Sound (BorrowGraph.ofProgram program)) :
    ((BorrowGraph.ofProgram program).circleSources closed).Pairwise
      fun a b => a.same b = false := by
  rw [BorrowGraph.circleSources, List.pairwise_filterMap]
  refine (List.pairwise_map.mp h.distinct).imp fun {i j} hne a ha b hb => ?_
  by_contra hs
  exact hne (index_eq_of_same history hk ha hb (by simpa using hs))

theorem isChain_circleSources {given : Node → Prop} (hk : Keyed given program)
    (h : closed.Sound (BorrowGraph.ofProgram program)) :
    ((BorrowGraph.ofProgram program).circleSources closed).IsChain
      fun source target => ∃ between, program.BorrowsBy between source target := by
  refine isChain_of_forall₂ ?_ (BorrowGraph.forall₂_circleSources h) h.linked
  rintro outer inner source target hs ht ⟨position, edge, _, he, hv, _⟩
  exact ⟨edge.borrow, borrowsBy_of_edgeAt hk he hs (hv ▸ ht)⟩

theorem borrowsBy_entered {given : Node → Prop} (hk : Keyed given program)
    (h : closed.Sound (BorrowGraph.ofProgram program)) (first second : Node)
    (hf : ((BorrowGraph.ofProgram program).circleSources closed)[0]? = some first)
    (hs : ((BorrowGraph.ofProgram program).circleSources closed)[1]? = some second) :
    program.BorrowsBy (((closed.circle[1]?).bind (·.via)).getD closed.edge.borrow)
      first second := by
  have hflip := (BorrowGraph.forall₂_circleSources h).flip
  obtain ⟨outer, ho, hov⟩ := getElem?_of_forall₂ hflip hf
  obtain ⟨inner, hi, hiv⟩ := getElem?_of_forall₂ hflip hs
  have hl := h.linked
  cases hc : closed.circle with
  | nil => simp [hc] at ho
  | cons v rest =>
    cases rest with
    | nil => simp [hc] at hi
    | cons w rest =>
      rw [hc] at hl ho hi
      cases Option.some.inj ho
      cases Option.some.inj hi
      obtain ⟨position, edge, _, he, hv, hvia⟩ := (List.isChain_cons_cons.mp hl).1
      simpa [hvia] using borrowsBy_of_edgeAt hk he hov (hv ▸ hiv)

/-- The borrow that enters a circle of several sources is not the one that closes it. -/
theorem same_iff_of_closed (history : History next nodes) (hk : Keyed (· ∈ nodes) program)
    {borrow closing first last : Node} {cycle : List Node}
    (hd : cycle.Pairwise fun a b => a.same b = false)
    (hs : ∀ source ∈ cycle, source ∈ program.sources)
    (he : ∀ first second, cycle[0]? = some first → cycle[1]? = some second →
      program.BorrowsBy borrow first second)
    (ha : cycle.length = 1 → borrow = closing)
    (hf : cycle.head? = some first) (hl : cycle.getLast? = some last)
    (hc : program.BorrowsBy closing last first) :
    borrow.same closing = true ↔ cycle.length = 1 := by
  refine ⟨fun hsame => ?_, fun h1 => by simp [ha h1, Node.same]⟩
  cases cycle with
  | nil => simp at hf
  | cons other rest =>
    cases rest with
    | nil => rfl
    | cons second rest =>
      cases Option.some.inj hf
      have hne := (List.pairwise_cons.mp hd).1 second List.mem_cons_self
      have hnot := not_same_of_borrowsBy history hk (hs _ List.mem_cons_self)
        (hs _ (List.mem_of_getLast? hl)) (he _ _ rfl rfl) hc hne
      exact absurd hsame (by simp [hnot])

theorem sites_of_same_iff {borrow closing : Node} {cycle : List Node}
    (h : borrow.same closing = true ↔ cycle.length = 1) :
    (Conflict.borrowCycle borrow closing cycle).sites.map (·.node) =
      if cycle.length = 1 then [borrow] else [borrow, closing] := by
  have hcomm : closing.same borrow = borrow.same closing := Bool.beq_comm
  by_cases h1 : cycle.length = 1
  · simp [Conflict.sites, Conflict.site, hcomm, h.mpr h1, h1]
  · have hnot : borrow.same closing = false := by simpa [← h] using h1
    simp [Conflict.sites, Conflict.site, hcomm, hnot, h1]

theorem circleReport_of_sound (history : History next nodes) (hk : Keyed (· ∈ nodes) program)
    (h : closed.Sound (BorrowGraph.ofProgram program)) :
    program.CircleReport (((closed.circle[1]?).bind (·.via)).getD closed.edge.borrow)
      closed.edge.borrow ((BorrowGraph.ofProgram program).circleSources closed) := by
  have hdistinct := pairwise_circleSources history hk h
  have hentered := borrowsBy_entered hk h
  have hsources : ∀ source ∈ (BorrowGraph.ofProgram program).circleSources closed,
      source ∈ program.sources := by
    intro source hs
    obtain ⟨visit, _, hv⟩ := List.mem_filterMap.mp hs
    exact List.mem_of_getElem? hv
  obtain ⟨first, hf, hft⟩ := BorrowGraph.head?_circleSources h
  obtain ⟨last, place, hl, _, he, hlp⟩ := BorrowGraph.getLast?_circleSources h
  have hclosed := borrowsBy_of_edgeAt hk he hlp hft
  have halone : ((BorrowGraph.ofProgram program).circleSources closed).length = 1 →
      ((closed.circle[1]?).bind (·.via)).getD closed.edge.borrow = closed.edge.borrow := by
    intro h1
    have hlen := (BorrowGraph.forall₂_circleSources h).length_eq
    have hn : closed.circle[1]? = none := List.getElem?_eq_none (by omega)
    simp [hn]
  have hsame := same_iff_of_closed history hk hdistinct hsources hentered halone hf hl hclosed
  exact ⟨hdistinct, hsources, isChain_circleSources hk h, ⟨first, last, hf, hl, hclosed⟩,
    hentered, halone, hsame, sites_of_same_iff hsame⟩

/-- Every circle that is reported is one, with its borrows at their places. -/
theorem borrowCycles_circleReport (history : History next nodes)
    (hr : program.Reachable (· ∈ nodes)) {conflict : Conflict}
    (hc : conflict ∈ program.borrowCycles) :
    ∃ borrow closing cycle, conflict = .borrowCycle borrow closing cycle ∧
      program.CircleReport borrow closing cycle := by
  obtain ⟨closed, hm, rfl⟩ := List.mem_map.mp hc
  exact ⟨_, _, _, rfl,
    circleReport_of_sound history hr.keyed (BorrowGraph.mem_closedCycles_sound hm)⟩

end Circle

def borrowOf (id : Nat) (name : String) : Node :=
  .tree (id + 2) .borrow
    [("borrow", .one (.token id .borrow "↓")), ("source", .one (.token (id + 1) .name name)),
     ("dot", .optional none), ("name", .optional none)]

def sourceOf (id : Nat) (name : String) (borrows : List Node) : Node :=
  .tree (id + 3) .source
    [("names", .one (.tree (id + 1) .names [("names", .list [.token id .name name])])),
     ("borrows", .list borrows),
     ("body", .one (.tree (id + 2) .block
       [("open", .optional none), ("statements", .list []), ("close", .optional none)]))]

/-- The source `a` borrows from `b`, and `b` holds the same borrow and one of `a`. -/
def sharing : Program :=
  ⟨[("a", sourceOf 6 "a" [borrowOf 0 "b"]),
    ("b", sourceOf 10 "b" [borrowOf 0 "b", borrowOf 3 "a"])]⟩

def sharingNodes : List Node :=
  [sourceOf 10 "b" [borrowOf 0 "b", borrowOf 3 "a"],
   .tree 12 .block [("open", .optional none), ("statements", .list []), ("close", .optional none)],
   .tree 11 .names [("names", .list [.token 10 .name "b"])], .token 10 .name "b",
   sourceOf 6 "a" [borrowOf 0 "b"],
   .tree 8 .block [("open", .optional none), ("statements", .list []), ("close", .optional none)],
   .tree 7 .names [("names", .list [.token 6 .name "a"])], .token 6 .name "a",
   borrowOf 3 "a", .token 4 .name "a", .token 3 .borrow "↓",
   borrowOf 0 "b", .token 1 .name "b", .token 0 .borrow "↓"]

theorem history_sharingNodes : History 14 sharingNodes := by
  unfold sharingNodes
  iterate 14
    refine .construct ?_ rfl
      (by simp [Node.children, Node.fields, Field.nodes, borrowOf, sourceOf])
  exact .start

theorem reachable_sharing : sharing.Reachable (· ∈ sharingNodes) := by
  have h : ofSources [sourceOf 6 "a" [borrowOf 0 "b"],
      sourceOf 10 "b" [borrowOf 0 "b", borrowOf 3 "a"]] = .ok sharing := rfl
  exact .ofSources (by simp [sharingNodes]) h

/-- The shared borrow closes the circle of `b` alone, and leads into the circle of both sources. -/
theorem sites_borrowCycles_sharing :
    (sharing.borrowCycles.map fun conflict => conflict.sites.map (·.node.id)) = [[2], [2, 5]] := by
  decide +kernel

theorem borrowCycles_circleReport_sharing :
    History 14 sharingNodes ∧ sharing.Reachable (· ∈ sharingNodes) ∧
    ∃ conflict, sharing.borrowCycles[1]? = some conflict ∧
      ∃ borrow closing cycle, conflict = .borrowCycle borrow closing cycle ∧
        sharing.CircleReport borrow closing cycle := by
  have hlen : sharing.borrowCycles.length = 2 := by
    simpa using congrArg List.length sites_borrowCycles_sharing
  have hb : 1 < sharing.borrowCycles.length := by omega
  refine ⟨history_sharingNodes, reachable_sharing, _, List.getElem?_eq_getElem hb, ?_⟩
  exact borrowCycles_circleReport history_sharingNodes reachable_sharing (List.getElem_mem hb)

end Program

end ProgramTree
