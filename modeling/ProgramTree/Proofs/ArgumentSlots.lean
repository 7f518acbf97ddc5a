import Mathlib.Data.List.Basic
import ProgramTree.Arguments

namespace ProgramTree

/-- An argument takes a parameter that no argument before it took: a named argument the first that
declares its name, any other argument the first that is left. -/
inductive TakesSlot (parameters : List Node) (taken : List Nat) (argument : Node) (slot : Nat) :
    Prop
  | named {name : String} {parameter : Node} (hk : argument.kind = .input)
      (hn : argument.inputName? = some name) (hp : parameters[slot]? = some parameter)
      (hd : parameter.declares name = true)
      (hf : ∀ before < slot, ∀ other, parameters[before]? = some other →
        other.declares name = false)
      (ht : slot ∉ taken)
  | next (hk : argument.kind ≠ .input) (hp : slot < parameters.length)
      (hf : ∀ before < slot, before ∈ taken) (ht : slot ∉ taken)

/-- Every argument of a call takes a parameter in its turn. -/
inductive AllTake (parameters : List Node) : List Nat → List Node → List Nat → Prop
  | nil (taken : List Nat) : AllTake parameters taken [] taken
  | cons {taken final : List Nat} {argument : Node} {rest : List Node} {slot : Nat}
      (hs : TakesSlot parameters taken argument slot)
      (hr : AllTake parameters (slot :: taken) rest final) :
      AllTake parameters taken (argument :: rest) final

/-- Every argument finds a parameter, and every required parameter is taken. -/
def Node.Accepts (definition : Node) (arguments : List Node) : Prop :=
  ∃ taken, AllTake definition.declaredInputs [] arguments taken ∧
    ∀ index parameter, definition.declaredInputs[index]? = some parameter →
      parameter.isRequired = true → index ∈ taken

section Slots

variable {parameters : List Node} {taken final : List Nat} {argument : Node} {slot : Nat}

theorem findIdx?_eq_some_iff_getElem? {α : Type} {p : α → Bool} {items : List α} {index : Nat} :
    items.findIdx? p = some index ↔ ∃ item, items[index]? = some item ∧ p item = true ∧
      ∀ before < index, ∀ other, items[before]? = some other → p other = false := by
  rw [List.findIdx?_eq_some_iff_getElem]
  constructor
  · rintro ⟨hb, hp, hf⟩
    refine ⟨_, List.getElem?_eq_getElem hb, hp, fun before hlt other ho => ?_⟩
    obtain ⟨_, rfl⟩ := List.getElem?_eq_some_iff.mp ho
    simpa using hf before hlt
  · rintro ⟨item, hi, hp, hf⟩
    obtain ⟨hb, rfl⟩ := List.getElem?_eq_some_iff.mp hi
    refine ⟨hb, hp, fun before hlt => ?_⟩
    have h := hf before hlt _ (List.getElem?_eq_getElem (Nat.lt_trans hlt hb))
    simp [h]

theorem slotFor_eq_some_iff :
    slotFor parameters taken argument = some slot ↔ TakesSlot parameters taken argument slot := by
  unfold slotFor
  split
  next hk =>
    rw [Option.filter_eq_some_iff, Option.bind_eq_some_iff]
    constructor
    · rintro ⟨⟨name, hn, hi⟩, ht⟩
      obtain ⟨parameter, hp, hd, hf⟩ := findIdx?_eq_some_iff_getElem?.mp hi
      exact .named hk hn hp hd hf (by simpa using ht)
    · rintro (⟨_, hn, hp, hd, hf, ht⟩ | ⟨hne, _, _, _⟩)
      · exact ⟨⟨_, hn, findIdx?_eq_some_iff_getElem?.mpr ⟨_, hp, hd, hf⟩⟩, by simpa using ht⟩
      · exact absurd hk hne
  next hk =>
    rw [List.find?_range_eq_some]
    constructor
    · rintro ⟨ht, hp, hf⟩
      exact .next hk (List.mem_range.mp hp) (fun before hlt => by simpa using hf before hlt)
        (by simpa using ht)
    · rintro (⟨he, _, _, _, _, _⟩ | ⟨_, hp, hf, ht⟩)
      · exact absurd he hk
      · exact ⟨by simpa using ht, List.mem_range.mpr hp,
          fun before hlt => by simpa using hf before hlt⟩

theorem length_assignSlots (arguments : List Node) :
    (assignSlots parameters taken arguments).length = arguments.length := by
  induction arguments generalizing taken with
  | nil => rfl
  | cons argument rest ih => simp [assignSlots, ih]

/-- The arguments all take parameters when none is left without a slot, and then they take the
slots assigned to them. -/
theorem allTake_iff {arguments : List Node} :
    AllTake parameters taken arguments final ↔
      none ∉ assignSlots parameters taken arguments ∧
        final = ((assignSlots parameters taken arguments).filterMap id).reverse ++ taken := by
  induction arguments generalizing taken with
  | nil =>
    constructor
    · rintro ⟨⟩
      simp [assignSlots]
    · rintro ⟨_, rfl⟩
      simpa [assignSlots] using AllTake.nil _
  | cons argument rest ih =>
    rw [assignSlots]
    constructor
    · rintro (_ | ⟨hs, hr⟩)
      rw [slotFor_eq_some_iff.mpr hs]
      obtain ⟨hn, rfl⟩ := ih.mp hr
      simpa using hn
    · rintro ⟨hn, hf⟩
      cases hs : slotFor parameters taken argument with
      | none => simp [hs] at hn
      | some slot =>
        rw [hs] at hn hf
        refine .cons (slotFor_eq_some_iff.mp hs) (ih.mpr ⟨?_, ?_⟩)
        · simpa using hn
        · simpa using hf

end Slots

/-- The arguments that are left without a parameter. -/
def unplaced (arguments : List Node) (slots : List (Option Nat)) : List Node :=
  ((arguments.zip slots).filter (·.2.isNone)).map (·.1)

/-- The parameters that every caller must supply and that no argument took. -/
def unfilled (parameters : List Node) (slots : List (Option Nat)) : List Node :=
  (parameters.zipIdx.filter fun (parameter, index) =>
    !slots.contains (some index) && parameter.isRequired).map (·.1)

section Leftovers

variable {parameters arguments : List Node} {slots : List (Option Nat)}

theorem mem_unplaced_iff {argument : Node} :
    argument ∈ unplaced arguments slots ↔
      ∃ index : Nat, arguments[index]? = some argument ∧ slots[index]? = some none := by
  simp only [unplaced, List.mem_map, List.mem_filter, Option.isNone_iff_eq_none]
  constructor
  · rintro ⟨⟨_, slot⟩, ⟨hm, hn⟩, rfl⟩
    obtain ⟨index, hi⟩ := List.mem_iff_getElem?.mp hm
    obtain ⟨hargument, hslot⟩ := List.getElem?_zip_eq_some.mp hi
    exact ⟨index, hargument, hslot.trans (congrArg some hn)⟩
  · rintro ⟨index, hi, hs⟩
    have hm : (arguments.zip slots)[index]? = some (argument, none) :=
      List.getElem?_zip_eq_some.mpr ⟨hi, hs⟩
    exact ⟨(argument, none), ⟨List.mem_of_getElem? hm, rfl⟩, rfl⟩

theorem unplaced_eq_nil_iff (hl : slots.length = arguments.length) :
    unplaced arguments slots = [] ↔ none ∉ slots := by
  simp only [List.eq_nil_iff_forall_not_mem, mem_unplaced_iff]
  constructor
  · intro h hn
    obtain ⟨index, hs⟩ := List.mem_iff_getElem?.mp hn
    have hb : index < arguments.length := hl ▸ (List.getElem?_eq_some_iff.mp hs).1
    exact h _ ⟨index, List.getElem?_eq_getElem hb, hs⟩
  · rintro hn argument ⟨index, -, hs⟩
    exact hn (List.mem_of_getElem? hs)

theorem mem_unfilled_iff {parameter : Node} :
    parameter ∈ unfilled parameters slots ↔
      ∃ index : Nat, parameters[index]? = some parameter ∧ parameter.isRequired = true ∧
        some index ∉ slots := by
  simp only [unfilled, List.mem_map, List.mem_filter, Prod.exists, List.mk_mem_zipIdx_iff_getElem?]
  constructor
  · rintro ⟨_, index, ⟨hp, hu⟩, rfl⟩
    exact ⟨index, hp, by simpa [and_comm] using hu⟩
  · rintro ⟨index, hp, hr, hs⟩
    exact ⟨parameter, index, ⟨hp, by simpa [hr] using hs⟩, rfl⟩

theorem unfilled_eq_nil_iff :
    unfilled parameters slots = [] ↔
      ∀ index parameter, parameters[index]? = some parameter → parameter.isRequired = true →
        some index ∈ slots := by
  simp only [List.eq_nil_iff_forall_not_mem, mem_unfilled_iff, not_exists, not_and, not_not]
  exact forall_comm

end Leftovers

namespace Node

variable {definition call : Node} {arguments : List Node}

theorem argumentConflicts_eq (definition call : Node) (arguments : List Node) :
    argumentConflicts definition call arguments =
      (unplaced arguments (assignSlots definition.declaredInputs [] arguments)).map
          (.unexpectedInput definition call) ++
        (unfilled definition.declaredInputs
          (assignSlots definition.declaredInputs [] arguments)).map
          (.missingInput definition call) := by
  simp only [unplaced, unfilled, List.map_map]
  rfl

theorem argumentConflicts_eq_nil_iff :
    argumentConflicts definition call arguments = [] ↔ definition.Accepts arguments := by
  rw [argumentConflicts_eq, List.append_eq_nil_iff, List.map_eq_nil_iff, List.map_eq_nil_iff,
    unplaced_eq_nil_iff (length_assignSlots arguments), unfilled_eq_nil_iff]
  constructor
  · rintro ⟨hn, hr⟩
    refine ⟨_, allTake_iff.mpr ⟨hn, rfl⟩, fun index parameter hp hq => ?_⟩
    simpa using hr index parameter hp hq
  · rintro ⟨taken, ht, hr⟩
    obtain ⟨hn, rfl⟩ := allTake_iff.mp ht
    refine ⟨hn, fun index parameter hp hq => ?_⟩
    simpa using hr index parameter hp hq

end Node

end ProgramTree
