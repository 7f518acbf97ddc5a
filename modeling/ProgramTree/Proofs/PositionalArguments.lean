import ProgramTree.Proofs.ArgumentSlots

namespace ProgramTree

section Slots

variable {parameters arguments : List Node} {taken : List Nat}

/-- The slots of arguments without names, from a position on: each takes the parameter at its own
position, as far as there are parameters. -/
def ownSlots (count start length : Nat) : List (Option Nat) :=
  (List.range' start length).map fun index => if index < count then some index else none

theorem some_mem_ownSlots {count start length index : Nat} :
    some index ∈ ownSlots count start length ↔
      start ≤ index ∧ index < start + length ∧ index < count := by
  simp only [ownSlots, List.mem_map, List.mem_range'_1]
  constructor
  · rintro ⟨other, ⟨hs, hl⟩, he⟩
    split at he
    next hc =>
      cases Option.some.inj he
      exact ⟨hs, hl, hc⟩
    next => cases he
  · rintro ⟨hs, hl, hc⟩
    exact ⟨index, ⟨hs, hl⟩, if_pos hc⟩

/-- When the first parameters are gone, an argument without a name takes the next one. -/
theorem slotFor_positional {argument : Node} (hk : argument.kind ≠ .input) {count : Nat}
    (ht : ∀ slot, slot ∈ taken ↔ slot < count ∧ slot < parameters.length) :
    slotFor parameters taken argument = if count < parameters.length then some count else none := by
  split
  next hc =>
    refine slotFor_eq_some_iff.mpr (.next hk hc (fun before hb => (ht before).mpr ⟨hb, ?_⟩) ?_)
    · exact Nat.lt_trans hb hc
    · simp [ht count]
  next hc =>
    refine Option.eq_none_iff_forall_ne_some.mpr fun slot hs => ?_
    rcases slotFor_eq_some_iff.mp hs with ⟨he, _, _, _, _, _⟩ | ⟨_, hp, _, hn⟩
    · exact hk he
    · exact hn ((ht slot).mpr ⟨by omega, hp⟩)

theorem assignSlots_positional (ha : ∀ argument ∈ arguments, argument.kind ≠ .input) (count : Nat)
    (ht : ∀ slot, slot ∈ taken ↔ slot < count ∧ slot < parameters.length) :
    assignSlots parameters taken arguments = ownSlots parameters.length count arguments.length := by
  induction arguments generalizing taken count with
  | nil => rfl
  | cons argument rest ih =>
    obtain ⟨hk, hrest⟩ := List.forall_mem_cons.mp ha
    have hslot := slotFor_positional hk ht
    have hnext : ∀ slot, slot ∈ (slotFor parameters taken argument).toList ++ taken ↔
        slot < count + 1 ∧ slot < parameters.length := by
      intro slot
      rw [List.mem_append, ht slot, hslot]
      split <;> simp <;> omega
    rw [assignSlots, ih hrest (count + 1) hnext, hslot]
    rfl

theorem unplaced_ownSlots (arguments : List Node) (count start : Nat) :
    unplaced arguments (ownSlots count start arguments.length) = arguments.drop (count - start) := by
  unfold unplaced ownSlots
  induction arguments generalizing start with
  | nil => simp
  | cons argument rest ih =>
    have hr := ih (start + 1)
    by_cases hc : start < count
    · have hd : count - start = count - (start + 1) + 1 := by omega
      simp only [List.length_cons, List.range'_succ, List.map_cons, if_pos hc, List.zip_cons_cons]
      rw [List.filter_cons_of_neg (by simp), hr, hd, List.drop_succ_cons]
    · have hd : count - start = 0 := by omega
      have hd' : count - (start + 1) = 0 := by omega
      simp only [List.length_cons, List.range'_succ, List.map_cons, if_neg hc, List.zip_cons_cons]
      rw [List.filter_cons_of_pos (by simp), List.map_cons, hr, hd, hd']
      rfl

theorem map_fst_filter_zipIdx (parameters : List Node) (bound start : Nat) :
    ((parameters.zipIdx start).filter fun entry =>
        !decide (entry.2 < bound) && entry.1.isRequired).map (·.1) =
      (parameters.drop (bound - start)).filter Node.isRequired := by
  induction parameters generalizing start with
  | nil => simp
  | cons parameter rest ih =>
    have hr := ih (start + 1)
    rw [List.zipIdx_cons]
    by_cases hb : start < bound
    · have hd : bound - start = bound - (start + 1) + 1 := by omega
      rw [List.filter_cons_of_neg (by simp [hb]), hr, hd, List.drop_succ_cons]
    · have hd : bound - start = 0 := by omega
      have hd' : bound - (start + 1) = 0 := by omega
      rw [hd'] at hr
      cases hq : parameter.isRequired <;> simp_all

theorem unfilled_ownSlots (parameters : List Node) (length : Nat) :
    unfilled parameters (ownSlots parameters.length 0 length) =
      (parameters.drop length).filter Node.isRequired := by
  rw [← Nat.sub_zero length, ← map_fst_filter_zipIdx, unfilled, Nat.sub_zero]
  refine congrArg (List.map Prod.fst) (List.filter_congr ?_)
  rintro ⟨parameter, index⟩ hm
  have hi := (List.getElem?_eq_some_iff.mp (List.mem_zipIdx_iff_getElem?.mp hm)).1
  have hs : some index ∈ ownSlots parameters.length 0 length ↔ index < length := by
    rw [some_mem_ownSlots]
    omega
  simp [hs]

end Slots

namespace Node

variable {definition call : Node} {arguments : List Node}

/-- Arguments without names fill the parameters from the first on: those that go beyond the
parameters are unexpected, and the required parameters beyond the arguments are missing. -/
theorem argumentConflicts_positional (ha : ∀ argument ∈ arguments, argument.kind ≠ .input) :
    argumentConflicts definition call arguments =
      (arguments.drop definition.declaredInputs.length).map (.unexpectedInput definition call) ++
        ((definition.declaredInputs.drop arguments.length).filter isRequired).map
          (.missingInput definition call) := by
  rw [argumentConflicts_eq, assignSlots_positional ha 0 (by simp), unplaced_ownSlots,
    unfilled_ownSlots]
  rfl

/-- The right operand of an operator is its one argument. -/
theorem argumentConflicts_singleton {right : Node} (hk : right.kind ≠ .input) :
    argumentConflicts definition call [right] =
      match definition.declaredInputs with
      | [] => [.unexpectedInput definition call right]
      | _ :: rest => (rest.filter isRequired).map fun parameter =>
        .missingInput definition call parameter := by
  rw [argumentConflicts_positional (by simpa using hk)]
  cases definition.declaredInputs with
  | nil => rfl
  | cons => simp

end Node

end ProgramTree
