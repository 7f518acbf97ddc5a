import Mathlib.Logic.Relation
import ProgramTree.Proofs.ClosedCycles

namespace ProgramTree

namespace BorrowGraph

/-- An edge that stands at none of the given places leads from one source to the other. -/
def LeadsPast (graph : BorrowGraph) (places : List (Nat × Nat)) (source target : Nat) : Prop :=
  ∃ position edge, (source, position) ∉ places ∧
    graph.edgeAt (source, position) = some edge ∧ edge.target = target

end BorrowGraph

namespace Search

variable {graph : BorrowGraph} {search after : Search}

def closedPlaces (search : Search) : List (Nat × Nat) :=
  search.closed.filterMap (·.place?)

/-- The edge at a place, if there is one, closed a circle or leads to a source that is done. -/
def Settled (graph : BorrowGraph) (search : Search) (place : Nat × Nat) : Prop :=
  ∀ edge, graph.edgeAt place = some edge →
    place ∈ search.closedPlaces ∨ search.marks[edge.target]? = some .done

/-- A visit on the path has followed the edge at the place. -/
def OnWay (path : List Visit) (place : Nat × Nat) : Prop :=
  ∃ visit ∈ path, visit.vertex = place.1 ∧ place.2 < visit.next

/-- The search has been past the place: its source is done, or on the path with a later edge to
follow. -/
def Past (search : Search) (place : Nat × Nat) : Prop :=
  search.marks[place.1]? = some .done ∨ OnWay search.path place

/-- What a search knows of the edges it has followed. Only the latest edge of a source below the top
of the path may be open: it led to the source above. -/
structure Explored (graph : BorrowGraph) (search : Search) : Prop where
  done_settled : ∀ place, search.marks[place.1]? = some .done → Settled graph search place
  top_settled : ∀ visit ∈ search.path.head?, ∀ position < visit.next,
    Settled graph search (visit.vertex, position)
  outer_settled : ∀ visit ∈ search.path.tail, ∀ position, position + 1 < visit.next →
    Settled graph search (visit.vertex, position)
  /-- No endless way past the closing edges starts from a source that is done. -/
  grounded : ∀ vertex, search.marks[vertex]? = some .done →
    Acc (fun target source => graph.LeadsPast search.closedPlaces source target) vertex
  places_nodup : search.closedPlaces.Nodup
  places_followed : ∀ place ∈ search.closedPlaces, search.marks[place.1]? = some .done ∨
    ∃ visit ∈ search.path, visit.vertex = place.1 ∧ place.2 < visit.next

theorem Move.closedPlaces_subset (hm : Move graph search after) {place : Nat × Nat}
    (h : place ∈ search.closedPlaces) : place ∈ after.closedPlaces := by
  cases hm with
  | close =>
    rw [closedPlaces, List.filterMap_append]
    exact List.mem_append_left _ h
  | _ => exact h

theorem Move.done (hm : Move graph search after) {vertex : Nat}
    (h : search.marks[vertex]? = some .done) : after.marks[vertex]? = some .done := by
  have hset : ∀ {other : Nat} {mark : Mark}, search.marks[other]? ≠ some .done →
      (search.marks.set other mark)[vertex]? = some .done := by
    intro other mark hne
    have hv : other ≠ vertex := fun he => hne (he ▸ h)
    rw [List.getElem?_set_ne hv]
    exact h
  cases hm with
  | descend hp he hu => exact hset (by simp [hu])
  | start hp hs hu => exact hset (by simp [hu])
  | @leave visit =>
    rw [List.getElem?_set]
    split
    next hv => rw [if_pos (hv ▸ (List.getElem?_eq_some_iff.mp h).1)]
    next => exact h
  | _ => exact h

theorem Settled.move (hm : Move graph search after) {place : Nat × Nat}
    (h : Settled graph search place) : Settled graph after place :=
  fun edge he => (h edge he).imp hm.closedPlaces_subset hm.done

theorem acc_mono (hm : Move graph search after) {vertex : Nat}
    (h : Acc (fun target source => graph.LeadsPast search.closedPlaces source target) vertex) :
    Acc (fun target source => graph.LeadsPast after.closedPlaces source target) vertex :=
  Subrelation.accessible (fun ⟨position, edge, hn, he⟩ =>
    ⟨position, edge, fun hmem => hn (hm.closedPlaces_subset hmem), he⟩) h

theorem Explored.initial (graph : BorrowGraph) : Explored graph (initial graph) where
  done_settled := by simp [Search.initial, List.getElem?_replicate]
  top_settled := by simp [Search.initial]
  outer_settled := by simp [Search.initial]
  grounded := by simp [Search.initial, List.getElem?_replicate]
  places_nodup := by simp [Search.initial, closedPlaces]
  places_followed := by simp [Search.initial, closedPlaces]

section Advance

variable {visit : Visit} {outer : List Visit}

theorem Explored.settled_advance (h : Explored graph search) (hp : search.path = visit :: outer)
    {lower : Visit} (hl : lower ∈ visit.advance :: outer) {position : Nat}
    (hn : position + 1 < lower.next) : Settled graph search (lower.vertex, position) := by
  rcases List.mem_cons.mp hl with rfl | hl
  · exact h.top_settled visit (by simp [hp]) position (by simpa [Visit.advance] using hn)
  · exact h.outer_settled lower (by simpa [hp] using hl) position hn

theorem Explored.followed_advance (h : Explored graph search)
    (hp : search.path = visit :: outer) {place : Nat × Nat} (hm : place ∈ search.closedPlaces) :
    search.marks[place.1]? = some .done ∨
      ∃ lower ∈ visit.advance :: outer, lower.vertex = place.1 ∧ place.2 < lower.next := by
  rcases h.places_followed place hm with hd | ⟨lower, hl, hv, hn⟩
  · exact Or.inl hd
  · rw [hp] at hl
    rcases List.mem_cons.mp hl with rfl | hl
    · exact Or.inr ⟨lower.advance, List.mem_cons_self, hv, Nat.lt_succ_of_lt hn⟩
    · exact Or.inr ⟨lower, List.mem_cons_of_mem _ hl, hv, hn⟩

/-- Following one more edge of the top keeps what is known, when that edge turns out settled. -/
theorem Explored.advance (h : Explored graph search) (hm : Move graph search after)
    (hp : search.path = visit :: outer) (hpath : after.path = visit.advance :: outer)
    (hmarks : after.marks = search.marks)
    (hnew : Settled graph after (visit.vertex, visit.next))
    (hplaces : after.closedPlaces = search.closedPlaces ∨
      after.closedPlaces = search.closedPlaces ++ [(visit.vertex, visit.next)] ∧
        (visit.vertex, visit.next) ∉ search.closedPlaces) : Explored graph after where
  done_settled place hd := (h.done_settled place (hmarks ▸ hd)).move hm
  top_settled := by
    intro top ht position hn
    obtain rfl : visit.advance = top := by simpa [hpath] using ht
    rcases Nat.lt_succ_iff_lt_or_eq.mp hn with hlt | rfl
    · exact (h.top_settled visit (by simp [hp]) position hlt).move hm
    · exact hnew
  outer_settled := by
    intro lower hl position hn
    refine (h.outer_settled lower ?_ position hn).move hm
    simpa [hp, hpath] using hl
  grounded vertex hv := acc_mono hm (h.grounded vertex (hmarks ▸ hv))
  places_nodup := by
    rcases hplaces with he | ⟨he, hnot⟩
    · exact he ▸ h.places_nodup
    · rw [he]
      exact List.nodup_append.mpr ⟨h.places_nodup, List.nodup_singleton _, by
        rintro place hmem _ hs rfl
        exact hnot (List.mem_singleton.mp hs ▸ hmem)⟩
  places_followed := by
    intro place hmem
    rw [hpath, hmarks]
    rcases hplaces with he | ⟨he, hnot⟩
    · exact h.followed_advance hp (he ▸ hmem)
    · rw [he] at hmem
      rcases List.mem_append.mp hmem with hold | hs
      · exact h.followed_advance hp hold
      · obtain rfl := List.mem_singleton.mp hs
        exact Or.inr ⟨visit.advance, List.mem_cons_self, rfl, Nat.lt_succ_self _⟩

end Advance

theorem done_of_set_onPath {marks : List Mark} {entered depth vertex : Nat}
    (h : (marks.set entered (.onPath depth))[vertex]? = some .done) :
    marks[vertex]? = some .done :=
  (getElem?_of_set_ne (by simp) h).2

theorem Explored.descend (h : Explored graph search) {visit : Visit} {outer : List Visit}
    {edge : BorrowEdge} (hp : search.path = visit :: outer)
    (he : graph.edgeAt (visit.vertex, visit.next) = some edge)
    (hu : search.marks[edge.target]? = some .unvisited) :
    Explored graph { search with
      marks := search.marks.set edge.target (.onPath search.path.length)
      path := ⟨edge.target, 0, some edge.borrow⟩ :: visit.advance :: outer } := by
  have hm := Move.descend hp he hu
  refine ⟨fun place hd => (h.done_settled place (done_of_set_onPath hd)).move hm, ?_, ?_,
    fun vertex hv => acc_mono hm (h.grounded vertex (done_of_set_onPath hv)), h.places_nodup, ?_⟩
  · intro top ht position hn
    obtain rfl : _ = top := by simpa using ht
    cases hn
  · exact fun lower hl position hn => (h.settled_advance hp hl hn).move hm
  · intro place hmem
    rcases h.followed_advance hp hmem with hd | ⟨lower, hl, hv⟩
    · exact Or.inl (hm.done hd)
    · exact Or.inr ⟨lower, List.mem_cons_of_mem _ hl, hv⟩

section Leave

variable {visit : Visit} {outer : List Visit}

theorem Explored.settled_of_top (h : Explored graph search) (hp : search.path = visit :: outer)
    (he : graph.edgeAt (visit.vertex, visit.next) = none) (position : Nat) :
    Settled graph search (visit.vertex, position) := by
  intro edge hedge
  have hlt : position < visit.next := by
    have hlen := List.getElem?_eq_none_iff.mp he
    have hb := (List.getElem?_eq_some_iff.mp hedge).1
    exact Nat.lt_of_lt_of_le hb hlen
  exact h.top_settled visit (by simp [hp]) position hlt edge hedge

/-- A source all of whose edges are settled is grounded. -/
theorem Explored.acc_of_settled (h : Explored graph search) {vertex : Nat}
    (hs : ∀ position, Settled graph search (vertex, position)) :
    Acc (fun target source => graph.LeadsPast search.closedPlaces source target) vertex := by
  refine Acc.intro _ fun target ⟨position, edge, hn, hedge, ht⟩ => ?_
  rcases hs position edge hedge with hmem | hd
  · exact absurd hmem hn
  · exact h.grounded target (ht ▸ hd)

/-- When the top source is left, the latest edge of the source below it led to the one that is
done now. -/
theorem Consistent.target_eq_of_top (hc : Consistent graph search) {lower : Visit}
    {rest : List Visit} (hp : search.path = visit :: lower :: rest) {position : Nat}
    (hn : position + 1 = lower.next) {edge : BorrowEdge}
    (he : graph.edgeAt (lower.vertex, position) = some edge) : edge.target = visit.vertex := by
  obtain ⟨last, other, hlast, hother, hv, _⟩ := (List.isChain_cons_cons.mp (hp ▸ hc.linked)).1
  obtain rfl : last = position := by omega
  cases Option.some.inj (he.symm.trans hother)
  exact hv.symm

theorem Explored.leave (hc : Consistent graph search) (h : Explored graph search)
    (hp : search.path = visit :: outer)
    (he : graph.edgeAt (visit.vertex, visit.next) = none) :
    Explored graph { search with marks := search.marks.set visit.vertex .done, path := outer } := by
  have hm : Move graph search _ := .leave hp he
  have hall := h.settled_of_top hp he
  have hdone : ∀ vertex, (search.marks.set visit.vertex .done)[vertex]? = some .done →
      vertex = visit.vertex ∨ search.marks[vertex]? = some .done := by
    intro vertex hv
    rw [List.getElem?_set] at hv
    split at hv
    next heq => exact Or.inl heq.symm
    next => exact Or.inr hv
  have hleft : (search.marks.set visit.vertex .done)[visit.vertex]? = some .done := by
    have hv : visit ∈ search.path := by simp [hp]
    obtain ⟨depth, hd⟩ := hc.mark_of_mem_path hv
    simp [(List.getElem?_eq_some_iff.mp hd).1]
  refine ⟨?_, ?_, ?_, ?_, h.places_nodup, ?_⟩
  · rintro ⟨vertex, position⟩ hd
    rcases hdone vertex hd with rfl | hd
    · exact (hall position).move hm
    · exact (h.done_settled (vertex, position) hd).move hm
  · intro top ht position hn edge hedge
    obtain ⟨rest, rfl⟩ : ∃ rest, outer = top :: rest := List.head?_eq_some_iff.mp ht
    rcases Nat.lt_or_ge (position + 1) top.next with hlt | hge
    · exact (h.outer_settled top (by simp [hp]) position hlt).move hm edge hedge
    · have ht := hc.target_eq_of_top hp (by omega) hedge
      exact Or.inr (ht ▸ hleft)
  · exact fun lower hl position hn =>
      (h.outer_settled lower (by simpa [hp] using List.mem_of_mem_tail hl) position hn).move hm
  · intro vertex hv
    rcases hdone vertex hv with rfl | hv
    · exact acc_mono hm (h.acc_of_settled hall)
    · exact acc_mono hm (h.grounded vertex hv)
  · intro place hmem
    rcases h.places_followed place hmem with hd | ⟨lower, hl, hv, hn⟩
    · exact Or.inl (hm.done hd)
    · rw [hp] at hl
      rcases List.mem_cons.mp hl with rfl | hl
      · exact Or.inl (hv ▸ hleft)
      · exact Or.inr ⟨lower, hl, hv, hn⟩

end Leave

/-- The edge that a search follows next is one that it has not been past. -/
theorem Consistent.not_past_next (hc : Consistent graph search) {visit : Visit}
    {outer : List Visit} (hp : search.path = visit :: outer) :
    ¬ search.Past (visit.vertex, visit.next) := by
  rintro (hdone | ⟨lower, hl, hv, hn⟩)
  · obtain ⟨depth, hd⟩ := hc.mark_of_mem_path (hp ▸ List.mem_cons_self : visit ∈ search.path)
    cases Option.some.inj (hdone.symm.trans hd)
  · have hnd := hc.onPath.nodup
    rw [route, List.nodup_reverse, hp, List.map_cons, List.nodup_cons] at hnd
    rw [hp] at hl
    rcases List.mem_cons.mp hl with rfl | hl
    · exact absurd hn (Nat.lt_irrefl _)
    · exact hnd.1 (List.mem_map.mpr ⟨lower, hl, hv⟩)

/-- The edge that a search follows next has closed nothing yet. -/
theorem Explored.next_not_mem_closedPlaces (hc : Consistent graph search)
    (h : Explored graph search) {visit : Visit} {outer : List Visit}
    (hp : search.path = visit :: outer) : (visit.vertex, visit.next) ∉ search.closedPlaces :=
  fun hmem => hc.not_past_next hp (h.places_followed _ hmem)

theorem Explored.move (hr : graph.InRange) (hc : Consistent graph search)
    (h : Explored graph search) (hm : Move graph search after) : Explored graph after := by
  cases hm with
  | descend hp he hu => exact h.descend hp he hu
  | @close visit outer edge depth hp he hd =>
    have hm : Move graph search _ := .close hp he hd
    have hplaces : Search.closedPlaces { search with
        path := visit.advance :: outer
        closed := search.closed ++ [⟨(visit.advance :: outer).reverse.drop depth, edge⟩] } =
        search.closedPlaces ++ [(visit.vertex, visit.next)] := by
      simp only [closedPlaces, List.filterMap_append, List.filterMap_cons,
        hc.place?_close hp hd, List.filterMap_nil]
    have hnew := h.next_not_mem_closedPlaces hc hp
    refine h.advance hm hp rfl rfl (fun _ _ => Or.inl ?_) (Or.inr ⟨hplaces, hnew⟩)
    rw [hplaces]
    exact List.mem_append_right _ (List.mem_singleton.mpr rfl)
  | @pass visit outer edge hp he hd =>
    refine h.advance (.pass hp he hd) hp rfl rfl (fun other ho => Or.inr ?_) (Or.inl rfl)
    cases Option.some.inj (he.symm.trans ho)
    have hb : edge.target < search.marks.length := hc.marks_length ▸ (hr _ _ he).2
    have hmark := List.getElem?_eq_getElem hb
    exact hd _ hmark ▸ hmark
  | leave hp he => exact h.leave hc hp he
  | @start start starts hp hs hu =>
    have hm : Move graph search _ := .start hp hs hu
    refine ⟨fun place hd => (h.done_settled place (done_of_set_onPath hd)).move hm, ?_, by simp,
      fun vertex hv => acc_mono hm (h.grounded vertex (done_of_set_onPath hv)), h.places_nodup, ?_⟩
    · intro top ht position hn
      obtain rfl : _ = top := by simpa using ht
      cases hn
    · intro place hmem
      rcases h.places_followed place hmem with hd | ⟨lower, hl, _⟩
      · exact Or.inl (hm.done hd)
      · simp [hp] at hl
  | skip hp hs hu =>
    exact ⟨h.done_settled, h.top_settled, h.outer_settled, h.grounded, h.places_nodup,
      h.places_followed⟩

theorem Reached.explored (hr : graph.InRange) (h : Reached graph search) :
    Explored graph search := by
  induction h with
  | initial => exact .initial graph
  | move hbefore hm ih => exact ih.move hr hbefore.consistent hm

theorem Consistent.done_of_isFinished (h : Consistent graph search)
    (hf : search.isFinished = true) {vertex : Nat} (hv : vertex < graph.sourceCount) :
    search.marks[vertex]? = some .done := by
  simp only [isFinished, Bool.and_eq_true, List.isEmpty_iff] at hf
  obtain ⟨mark, hm⟩ : ∃ mark, search.marks[vertex]? = some mark :=
    ⟨_, List.getElem?_eq_getElem (h.marks_length ▸ hv)⟩
  cases mark with
  | unvisited =>
    have hs := h.starts vertex hm
    simp [hf.2] at hs
  | onPath depth =>
    have hr := (h.onPath vertex depth).mp hm
    simp [route, hf.1] at hr
  | done => exact hm

end Search

end ProgramTree
