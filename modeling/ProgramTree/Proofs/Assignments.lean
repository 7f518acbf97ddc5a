import Mathlib.Data.List.Nodup
import Mathlib.Data.List.ReduceOption
import ProgramTree.Proofs.ArgumentSlots

namespace ProgramTree

/-- The parameters that the arguments of a call take from left to right, each argument in view of
those that are gone before it; `none` stands at an argument that is left without a parameter. -/
structure Assignment (parameters arguments : List Node) (slots : List (Option Nat)) : Prop where
  length_eq : slots.length = arguments.length
  takes_iff : ∀ index argument, arguments[index]? = some argument → ∀ slot,
    slots[index]? = some (some slot) ↔
      TakesSlot parameters ((slots.take index).filterMap id) argument slot

section Slots

variable {parameters arguments : List Node} {taken other : List Nat} {argument : Node}
  {slots : List (Option Nat)} {slot : Nat}

theorem TakesSlot.lt (h : TakesSlot parameters taken argument slot) : slot < parameters.length := by
  cases h with
  | named hk hn hp => exact (List.getElem?_eq_some_iff.mp hp).1
  | next hk hp => exact hp

theorem TakesSlot.not_mem (h : TakesSlot parameters taken argument slot) : slot ∉ taken := by
  cases h <;> assumption

theorem slotFor_congr (h : ∀ slot, slot ∈ taken ↔ slot ∈ other) (argument : Node) :
    slotFor parameters taken argument = slotFor parameters other argument := by
  have hc : (fun slot => !taken.contains slot) = fun slot => !other.contains slot := by
    funext slot
    simp [h slot]
  unfold slotFor
  rw [hc]

theorem assignSlots_congr (h : ∀ slot, slot ∈ taken ↔ slot ∈ other) (arguments : List Node) :
    assignSlots parameters taken arguments = assignSlots parameters other arguments := by
  induction arguments generalizing taken other with
  | nil => rfl
  | cons argument rest ih =>
    rw [assignSlots, assignSlots, slotFor_congr h argument]
    congr 1
    refine ih fun slot => ?_
    simp [h slot]

theorem assignSlots_append (parameters : List Node) (taken : List Nat) (first rest : List Node) :
    assignSlots parameters taken (first ++ rest) =
      assignSlots parameters taken first ++
        assignSlots parameters ((assignSlots parameters taken first).filterMap id ++ taken) rest := by
  induction first generalizing taken with
  | nil => simp [assignSlots]
  | cons argument first ih =>
    simp only [List.cons_append, assignSlots, ih]
    congr 2
    refine assignSlots_congr (fun slot => ?_) rest
    cases slotFor parameters taken argument with
    | none => simp
    | some slot => simp [or_left_comm]

theorem getElem?_assignSlots {index : Nat} (h : arguments[index]? = some argument) :
    (assignSlots parameters [] arguments)[index]? =
      some (slotFor parameters (((assignSlots parameters [] arguments).take index).filterMap id)
        argument) := by
  obtain ⟨hb, rfl⟩ := List.getElem?_eq_some_iff.mp h
  have hsplit : arguments = arguments.take index ++ arguments[index] :: arguments.drop (index + 1) := by
    rw [← List.drop_eq_getElem_cons hb, List.take_append_drop]
  have hl : (assignSlots parameters [] (arguments.take index)).length = index := by
    rw [length_assignSlots, List.length_take]
    omega
  have hs := assignSlots_append parameters [] (arguments.take index)
    (arguments[index] :: arguments.drop (index + 1))
  rw [← hsplit, assignSlots, List.append_nil] at hs
  rw [hs, List.take_left' hl, List.getElem?_append_right (by omega), hl]
  simp

theorem assignment_assignSlots (parameters arguments : List Node) :
    Assignment parameters arguments (assignSlots parameters [] arguments) where
  length_eq := length_assignSlots arguments
  takes_iff index argument h slot := by
    rw [getElem?_assignSlots h, Option.some_inj]
    exact slotFor_eq_some_iff

theorem Assignment.getElem?_eq (h : Assignment parameters arguments slots) {index : Nat}
    (hi : arguments[index]? = some argument) :
    slots[index]? =
      some (slotFor parameters ((slots.take index).filterMap id) argument) := by
  have hb : index < slots.length := h.length_eq ▸ (List.getElem?_eq_some_iff.mp hi).1
  rw [List.getElem?_eq_getElem hb, Option.some_inj]
  refine Option.ext fun slot => ?_
  rw [slotFor_eq_some_iff, ← h.takes_iff index argument hi slot, List.getElem?_eq_getElem hb,
    Option.some_inj]

/-- The arguments of a call are assigned to its parameters in one way only. -/
theorem Assignment.eq_assignSlots (h : Assignment parameters arguments slots) :
    slots = assignSlots parameters [] arguments := by
  have ha := assignment_assignSlots parameters arguments
  have htake : ∀ count, slots.take count = (assignSlots parameters [] arguments).take count := by
    intro count
    induction count with
    | zero => rfl
    | succ count ih =>
      rw [List.take_add_one, List.take_add_one, ih]
      congr 2
      cases hi : arguments[count]? with
      | none =>
        have hle := List.getElem?_eq_none_iff.mp hi
        rw [List.getElem?_eq_none (h.length_eq ▸ hle), List.getElem?_eq_none (ha.length_eq ▸ hle)]
      | some argument => rw [h.getElem?_eq hi, ha.getElem?_eq hi, ih]
  have hl := htake arguments.length
  rwa [← h.length_eq, List.take_length, h.length_eq, ← ha.length_eq, List.take_length] at hl

namespace Assignment

theorem slot_lt (h : Assignment parameters arguments slots) (hs : some slot ∈ slots) :
    slot < parameters.length := by
  obtain ⟨index, hi⟩ := List.mem_iff_getElem?.mp hs
  have hb : index < arguments.length := h.length_eq ▸ (List.getElem?_eq_some_iff.mp hi).1
  exact ((h.takes_iff index _ (List.getElem?_eq_getElem hb) slot).mp hi).lt

theorem getElem?_ne (h : Assignment parameters arguments slots) {i j : Nat} (hlt : i < j)
    (hi : slots[i]? = some (some slot)) : slots[j]? ≠ some (some slot) := by
  intro hj
  have hb : j < arguments.length := h.length_eq ▸ (List.getElem?_eq_some_iff.mp hj).1
  have htake := (h.takes_iff j _ (List.getElem?_eq_getElem hb) slot).mp hj
  have hmem : some slot ∈ slots.take j :=
    List.mem_of_getElem? ((List.getElem?_take_of_lt hlt).trans hi)
  exact htake.not_mem (List.mem_filterMap.mpr ⟨some slot, hmem, rfl⟩)

/-- No parameter is taken twice. -/
theorem injective (h : Assignment parameters arguments slots) {i j : Nat}
    (hi : slots[i]? = some (some slot)) (hj : slots[j]? = some (some slot)) : i = j := by
  rcases Nat.lt_trichotomy i j with hlt | he | hlt
  · exact (h.getElem?_ne hlt hi hj).elim
  · exact he
  · exact (h.getElem?_ne hlt hj hi).elim

theorem nodup (h : Assignment parameters arguments slots) : (slots.filterMap id).Nodup := by
  rw [List.nodup_iff_pairwise_ne, List.pairwise_filterMap, List.pairwise_iff_getElem]
  rintro i j hi hj hlt slot hs other ho rfl
  exact h.getElem?_ne hlt (List.getElem?_eq_some_iff.mpr ⟨hi, hs⟩)
    (List.getElem?_eq_some_iff.mpr ⟨hj, ho⟩)

theorem countP_taken (h : Assignment parameters arguments slots) :
    (List.range parameters.length).countP (fun slot => some slot ∈ slots) =
      (slots.filterMap id).length := by
  rw [List.countP_eq_length_filter]
  refine List.Perm.length_eq ((List.perm_ext_iff_of_nodup (List.nodup_range.filter _) h.nodup).mpr
    fun slot => ?_)
  have hlt : some slot ∈ slots → slot < parameters.length := h.slot_lt
  simpa using hlt

end Assignment

theorem length_unplaced (hl : slots.length = arguments.length) :
    (unplaced arguments slots).length + (slots.filterMap id).length = arguments.length := by
  have hsnd : (arguments.zip slots).map (·.2) = slots := List.map_snd_zip (Nat.le_of_eq hl)
  have hunplaced : (unplaced arguments slots).length = (slots.filter Option.isNone).length := by
    conv_rhs => rw [← hsnd, List.filter_map, List.length_map]
    rw [unplaced, List.length_map]
    rfl
  have hslots : slots.length = (slots.filterMap id).length + (slots.filter Option.isNone).length :=
    List.length_eq_reduceOption_length_add_filter_none
  omega

theorem unplaced_append {others : List (Option Nat)} (hl : slots.length = arguments.length)
    (rest : List Node) :
    unplaced (arguments ++ rest) (slots ++ others) =
      unplaced arguments slots ++ unplaced rest others := by
  rw [unplaced, List.zip_append hl.symm, List.filter_append, List.map_append]
  rfl

theorem unfilled_congr {others : List (Option Nat)}
    (h : ∀ slot, some slot ∈ slots ↔ some slot ∈ others) (parameters : List Node) :
    unfilled parameters slots = unfilled parameters others := by
  simp only [unfilled, List.contains_eq_mem, h]

/-- The arguments that take a parameter are as many as the parameters that are taken. -/
theorem Assignment.length_add_untaken (h : Assignment parameters arguments slots) :
    arguments.length + (List.range parameters.length).countP (fun slot => some slot ∉ slots) =
      parameters.length + (unplaced arguments slots).length := by
  have hparameters := List.length_eq_countP_add_countP (fun slot => decide (some slot ∈ slots))
    (l := List.range parameters.length)
  have harguments := length_unplaced h.length_eq
  simp only [List.length_range, h.countP_taken, decide_eq_true_eq] at hparameters
  omega

end Slots

end ProgramTree
