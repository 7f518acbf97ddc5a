import ProgramTree.Proofs.CallReports

namespace ProgramTree

section Named

variable {parameters named other : List Node} {taken : List Nat} {argument : Node} {slot : Nat}

/-- A named argument has one parameter to take, and takes it unless it is gone. -/
theorem slotFor_named_eq_some_iff (hk : argument.kind = .input) :
    slotFor parameters taken argument = some slot ↔
      slotFor parameters [] argument = some slot ∧ slot ∉ taken := by
  simp [slotFor, hk, Option.filter_eq_some_iff]

/-- Which parameters named arguments take does not depend on their order. -/
theorem mem_assignSlots_named (hn : ∀ argument ∈ named, argument.kind = .input) :
    some slot ∈ assignSlots parameters taken named ↔
      slot ∉ taken ∧ ∃ argument ∈ named, slotFor parameters [] argument = some slot := by
  induction named generalizing taken with
  | nil => simp [assignSlots]
  | cons argument rest ih =>
    obtain ⟨hk, hrest⟩ := List.forall_mem_cons.mp hn
    have hslot : slotFor parameters taken argument = some slot ↔
        slotFor parameters [] argument = some slot ∧ slot ∉ taken :=
      slotFor_named_eq_some_iff hk
    rw [assignSlots, List.mem_cons, eq_comm, hslot, ih hrest, List.exists_mem_cons_iff,
      List.mem_append, Option.mem_toList, hslot]
    tauto

theorem mem_assignSlots_iff_of_perm (hn : ∀ argument ∈ named, argument.kind = .input)
    (hp : other.Perm named) (slot : Nat) :
    some slot ∈ assignSlots parameters [] other ↔ some slot ∈ assignSlots parameters [] named := by
  have ho : ∀ argument ∈ other, argument.kind = .input := fun argument hm =>
    hn argument (hp.mem_iff.mp hm)
  rw [mem_assignSlots_named ho, mem_assignSlots_named hn]
  simp only [hp.mem_iff]

theorem perm_taken (parameters : List Node) (hn : ∀ argument ∈ named, argument.kind = .input)
    (hp : other.Perm named) :
    ((assignSlots parameters [] other).filterMap id).Perm
      ((assignSlots parameters [] named).filterMap id) := by
  refine (List.perm_ext_iff_of_nodup (assignment_assignSlots parameters other).nodup
    (assignment_assignSlots parameters named).nodup).mpr fun slot => ?_
  simpa using mem_assignSlots_iff_of_perm hn hp slot

/-- Named arguments that compete for no parameter are left over only when they name none. -/
theorem unplaced_of_distinct (hn : ∀ argument ∈ named, argument.kind = .input)
    (hd : named.Pairwise fun a b => ∀ slot, slotFor parameters [] a = some slot →
      slotFor parameters [] b ≠ some slot)
    (ht : ∀ argument ∈ named, ∀ slot, slotFor parameters [] argument = some slot → slot ∉ taken) :
    unplaced named (assignSlots parameters taken named) =
      named.filter fun argument => (slotFor parameters [] argument).isNone := by
  induction named generalizing taken with
  | nil => rfl
  | cons argument rest ih =>
    obtain ⟨hk, hrest⟩ := List.forall_mem_cons.mp hn
    obtain ⟨ha, hd⟩ := List.pairwise_cons.mp hd
    obtain ⟨hfree, ht⟩ := List.forall_mem_cons.mp ht
    have hslot : slotFor parameters taken argument = slotFor parameters [] argument := by
      refine Option.ext fun slot => ?_
      rw [slotFor_named_eq_some_iff hk]
      exact and_iff_left_of_imp (hfree slot)
    have hfree : ∀ b ∈ rest, ∀ slot, slotFor parameters [] b = some slot →
        slot ∉ (slotFor parameters [] argument).toList ++ taken := by
      intro b hb slot hs hm
      rcases List.mem_append.mp hm with hm | hm
      · exact ha b hb slot (Option.mem_toList.mp hm) hs
      · exact ht b hb slot hs hm
    rw [assignSlots, hslot, List.filter_cons, ← ih hrest hd hfree, unplaced, List.zip_cons_cons,
      List.filter_cons]
    split <;> rfl

/-- Arguments that find the same parameters gone share them out in the same way. -/
theorem assignSlots_append_of_perm (hn : ∀ argument ∈ named, argument.kind = .input)
    (hp : other.Perm named) (rest : List Node) :
    assignSlots parameters [] (other ++ rest) =
      assignSlots parameters [] other ++
        assignSlots parameters ((assignSlots parameters [] named).filterMap id) rest := by
  rw [assignSlots_append, List.append_nil]
  congr 1
  exact assignSlots_congr (fun slot => (perm_taken parameters hn hp).mem_iff) rest

end Named

/-- Two calls of a definition pass the same named arguments in another order, and then the same
further arguments. They leave over the same further arguments and as many of the named ones, those
being the same when no two of them select one parameter, and they miss the same parameters. -/
def ReportsAgree (definition call call' : Node) (named named' rest : List Node)
    (conflicts conflicts' : List Conflict) : Prop :=
  ∃ (slots slots' others : List (Option Nat)) (missing : List Node),
    slots.length = named.length ∧ slots'.length = named'.length ∧
    Assignment definition.declaredInputs (named ++ rest) (slots ++ others) ∧
    Assignment definition.declaredInputs (named' ++ rest) (slots' ++ others) ∧
    conflicts = (unplaced named slots ++ unplaced rest others).map
        (.unexpectedInput definition call) ++ missing.map (.missingInput definition call) ∧
    conflicts' = (unplaced named' slots' ++ unplaced rest others).map
        (.unexpectedInput definition call') ++ missing.map (.missingInput definition call') ∧
    (unplaced named' slots').length = (unplaced named slots).length ∧
    ((named.Pairwise fun a b => ∀ slot, TakesSlot definition.declaredInputs [] a slot →
        ¬ TakesSlot definition.declaredInputs [] b slot) →
      (unplaced named' slots').Perm (unplaced named slots))

namespace Node

variable {definition : Node} {parameters named named' : List Node}

theorem length_unplaced_of_perm (hn : ∀ argument ∈ named, argument.kind = .input)
    (hp : named'.Perm named) :
    (unplaced named' (assignSlots parameters [] named')).length =
      (unplaced named (assignSlots parameters [] named)).length := by
  have hnamed := length_unplaced (assignment_assignSlots parameters named).length_eq
  have hother := length_unplaced (assignment_assignSlots parameters named').length_eq
  have htaken := (perm_taken parameters hn hp).length_eq
  have hl := hp.length_eq
  omega

theorem perm_unplaced_of_distinct (hn : ∀ argument ∈ named, argument.kind = .input)
    (hp : named'.Perm named)
    (hd : named.Pairwise fun a b => ∀ slot, TakesSlot parameters [] a slot →
      ¬ TakesSlot parameters [] b slot) :
    (unplaced named' (assignSlots parameters [] named')).Perm
      (unplaced named (assignSlots parameters [] named)) := by
  simp only [← slotFor_eq_some_iff] at hd
  have hd' := (hp.pairwise_iff fun {a b} hab slot hb ha => hab slot ha hb).mpr hd
  have hn' : ∀ argument ∈ named', argument.kind = .input := fun argument hm =>
    hn argument (hp.mem_iff.mp hm)
  rw [unplaced_of_distinct hn hd (by simp), unplaced_of_distinct hn' hd' (by simp)]
  exact hp.filter _

theorem unfilled_append_of_perm (hn : ∀ argument ∈ named, argument.kind = .input)
    (hp : named'.Perm named) (others : List (Option Nat)) :
    unfilled parameters (assignSlots parameters [] named' ++ others) =
      unfilled parameters (assignSlots parameters [] named ++ others) := by
  refine unfilled_congr (fun slot => ?_) parameters
  rw [List.mem_append, List.mem_append, mem_assignSlots_iff_of_perm hn hp]

theorem reportsAgree_argumentConflicts (call call' : Node) (rest : List Node)
    (hn : ∀ argument ∈ named, argument.kind = .input) (hp : named'.Perm named) :
    ReportsAgree definition call call' named named' rest
      (argumentConflicts definition call (named ++ rest))
      (argumentConflicts definition call' (named' ++ rest)) := by
  have ha := assignment_assignSlots definition.declaredInputs (named ++ rest)
  have ha' := assignment_assignSlots definition.declaredInputs (named' ++ rest)
  rw [assignSlots_append_of_perm hn (.refl named) rest] at ha
  rw [assignSlots_append_of_perm hn hp rest] at ha'
  have hc := argumentConflicts_of_assignment call ha
  have hc' := argumentConflicts_of_assignment call' ha'
  rw [unplaced_append (length_assignSlots named)] at hc
  rw [unplaced_append (length_assignSlots named'), unfilled_append_of_perm hn hp] at hc'
  exact ⟨_, _, _, _, length_assignSlots named, length_assignSlots named', ha, ha', hc, hc',
    length_unplaced_of_perm hn hp, perm_unplaced_of_distinct hn hp⟩

end Node

/-- Named arguments that come first may be written in any order. -/
theorem Globals.conflictsAt_reordered {globals globals' : Globals} {scope scope' : Scope}
    {call call' callee callee' definition : Node} {named named' rest : List Node}
    (hk : call.kind = .evaluate) (hf : call.single? "fun" = some callee)
    (hd : globals.definitionOf? scope callee = some definition)
    (ha : call.elements "inputs" = named ++ rest)
    (hk' : call'.kind = .evaluate) (hf' : call'.single? "fun" = some callee')
    (hd' : globals'.definitionOf? scope' callee' = some definition)
    (ha' : call'.elements "inputs" = named' ++ rest)
    (hn : ∀ argument ∈ named, argument.kind = .input) (hp : named'.Perm named) :
    ReportsAgree definition call call' named named' rest (globals.conflictsAt scope call)
      (globals'.conflictsAt scope' call') := by
  rw [conflictsAt_of_resolved hk hf hd, ha, conflictsAt_of_resolved hk' hf' hd', ha']
  exact Node.reportsAgree_argumentConflicts call call' rest hn hp

section Competing

/-- The arguments `b: 3, a: 2, x: 4`, of which the first two select one parameter. -/
def competing : List Node :=
  [namedArgument 50 "b" (numberOf 48 "3"), namedArgument 65 "a" (numberOf 63 "2"),
   namedArgument 55 "x" (numberOf 53 "4")]

/-- The same arguments with the first one at the end. -/
def competingLater : List Node :=
  competing.tail ++ [namedArgument 50 "b" (numberOf 48 "3")]

/-- The further arguments `1, d: 2`. -/
def furtherArguments : List Node :=
  [numberOf 41 "1", namedArgument 45 "d" (numberOf 43 "2")]

def competingCall (id : Nat) (arguments : List Node) : Node :=
  callWith id fourParameters (arguments ++ furtherArguments)

/-- The later one of `a` and `b` is left over, and `e` is missing either way. -/
theorem Globals.conflictsAt_reordered_competing :
    competingLater.Perm competing ∧ (∀ argument ∈ competing, argument.kind = .input) ∧
      ReportsAgree fourParameters (competingCall 70 competing) (competingCall 80 competingLater)
        competing competingLater furtherArguments
        ((ofProgram .empty).conflictsAt [] (competingCall 70 competing))
        ((ofProgram .empty).conflictsAt [] (competingCall 80 competingLater)) ∧
      ((ofProgram .empty).conflictsAt [] (competingCall 70 competing)).map (·.primary.id) =
        [67, 57, 72] ∧
      ((ofProgram .empty).conflictsAt [] (competingCall 80 competingLater)).map (·.primary.id) =
        [57, 52, 82] := by
  have hp : competingLater.Perm competing := List.perm_append_singleton _ competing.tail
  have hn : ∀ argument ∈ competing, argument.kind = .input := by
    simp [competing, namedArgument, Node.kind]
  exact ⟨hp, hn, conflictsAt_reordered rfl rfl rfl rfl rfl rfl rfl rfl hn hp, by decide +kernel,
    by decide +kernel⟩

end Competing

end ProgramTree
