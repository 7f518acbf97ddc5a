import Mathlib.Data.List.Forall2
import ProgramTree.BorrowCycles
import ProgramTree.Proofs.ClosedCycles

namespace ProgramTree

theorem forall₂_filterMap {α β : Type} {R : α → β → Prop} {f : α → Option β} {items : List α}
    (h : ∀ item ∈ items, ∃ value, f item = some value ∧ R item value) :
    List.Forall₂ R items (items.filterMap f) := by
  induction items with
  | nil => exact .nil
  | cons item rest ih =>
    obtain ⟨value, hv, hr⟩ := h item List.mem_cons_self
    rw [List.filterMap_cons_some hv]
    exact .cons hr (ih fun other ho => h other (List.mem_cons_of_mem _ ho))

theorem getElem?_of_forall₂ {α β : Type} {R : α → β → Prop} {items : List α} {values : List β}
    (h : List.Forall₂ R items values) {index : Nat} {item : α} (hi : items[index]? = some item) :
    ∃ value, values[index]? = some value ∧ R item value := by
  induction h generalizing index with
  | nil => simp at hi
  | cons hr _ ih =>
    cases index with
    | zero =>
      cases Option.some.inj hi
      exact ⟨_, rfl, hr⟩
    | succ index => exact ih hi

theorem isChain_of_forall₂ {α β : Type} {R : α → β → Prop} {S : α → α → Prop} {T : β → β → Prop}
    (hST : ∀ {a b x y}, R a x → R b y → S a b → T x y) {items : List α} {values : List β}
    (h : List.Forall₂ R items values) (hc : items.IsChain S) : values.IsChain T := by
  induction h with
  | nil => exact .nil
  | cons hr hrest ih =>
    cases hrest with
    | nil => exact .singleton _
    | cons hr' hrest' =>
      obtain ⟨hs, hc'⟩ := List.isChain_cons_cons.mp hc
      exact .cons_cons (hST hr hr' hs) (ih hc')

namespace BorrowGraph

variable {graph : BorrowGraph} {closed : ClosedCycle}

def circleSources (graph : BorrowGraph) (closed : ClosedCycle) : List Node :=
  closed.circle.filterMap fun visit => graph.sources[visit.vertex]?

theorem forall₂_circleSources (h : closed.Sound graph) :
    List.Forall₂ (fun visit source => graph.sources[visit.vertex]? = some source)
      closed.circle (graph.circleSources closed) :=
  forall₂_filterMap fun visit hv =>
    have hs := List.getElem?_eq_getElem (h.inRange visit hv)
    ⟨_, hs, hs⟩

theorem head?_circleSources (h : closed.Sound graph) :
    ∃ source, (graph.circleSources closed).head? = some source ∧
      graph.sources[closed.edge.target]? = some source := by
  obtain ⟨first, hf, ht⟩ := h.first
  rw [List.head?_eq_getElem?] at hf
  obtain ⟨source, hs, hv⟩ := getElem?_of_forall₂ (forall₂_circleSources h) hf
  exact ⟨source, by rw [List.head?_eq_getElem?]; exact hs, ht ▸ hv⟩

theorem getLast?_circleSources (h : closed.Sound graph) :
    ∃ source place, (graph.circleSources closed).getLast? = some source ∧
      closed.place? = some place ∧ graph.edgeAt place = some closed.edge ∧
      graph.sources[place.1]? = some source := by
  obtain ⟨last, position, hl, hn, he⟩ := h.last
  have hlen := (forall₂_circleSources h).length_eq
  have hl' := hl
  rw [List.getLast?_eq_getElem?, hlen] at hl'
  obtain ⟨source, hs, hv⟩ := getElem?_of_forall₂ (forall₂_circleSources h) hl'
  exact ⟨source, (last.vertex, position), by rw [List.getLast?_eq_getElem?]; exact hs,
    by simp [ClosedCycle.place?, hl, hn], he, hv⟩

end BorrowGraph

end ProgramTree
