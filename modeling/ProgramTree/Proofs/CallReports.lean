import ProgramTree.Proofs.Assignments
import ProgramTree.Proofs.Calls
import ProgramTree.Proofs.Parts

namespace ProgramTree

def Conflict.isUnexpectedInput : Conflict → Bool
  | .unexpectedInput .. => true
  | _ => false

/-- What is reported of a call of a definition: the arguments that find no parameter, then the
required parameters that no argument took. -/
structure CallReport (definition call : Node) (arguments : List Node) (slots : List (Option Nat))
    (conflicts : List Conflict) : Prop where
  assigned : Assignment definition.declaredInputs arguments slots
  unique : ∀ other, Assignment definition.declaredInputs arguments other → other = slots
  injective : ∀ i j : Nat, ∀ slot, slots[i]? = some (some slot) → slots[j]? = some (some slot) → i = j
  reported : conflicts =
    (unplaced arguments slots).map (.unexpectedInput definition call) ++
      (unfilled definition.declaredInputs slots).map (.missingInput definition call)
  /-- A parameter of a definition is required when it has no default value. -/
  required_iff : definition.WellFormed → ∀ parameter ∈ definition.declaredInputs,
    (parameter.isRequired = true ↔ parameter.single? "value" = none)
  counted : conflicts.countP (·.isUnexpectedInput) ≤ arguments.length ∧
    arguments.length - conflicts.countP (·.isUnexpectedInput) +
        (List.range definition.declaredInputs.length).countP (fun slot => some slot ∉ slots) =
      definition.declaredInputs.length
  positional : (∀ argument ∈ arguments, argument.kind ≠ .input) → conflicts =
    (arguments.drop definition.declaredInputs.length).map (.unexpectedInput definition call) ++
      ((definition.declaredInputs.drop arguments.length).filter Node.isRequired).map
        (.missingInput definition call)

section Reports

variable {definition call : Node} {arguments : List Node} {slots : List (Option Nat)}

theorem Node.argumentConflicts_of_assignment (call : Node)
    (h : Assignment definition.declaredInputs arguments slots) :
    argumentConflicts definition call arguments =
      (unplaced arguments slots).map (.unexpectedInput definition call) ++
        (unfilled definition.declaredInputs slots).map (.missingInput definition call) := by
  rw [argumentConflicts_eq, h.eq_assignSlots]

theorem countP_isUnexpectedInput (definition call : Node) (unexpected missing : List Node) :
    (unexpected.map (Conflict.unexpectedInput definition call) ++
        missing.map (Conflict.missingInput definition call)).countP (·.isUnexpectedInput) =
      unexpected.length := by
  rw [List.countP_append, List.countP_map, List.countP_map]
  have hu : ∀ argument ∈ unexpected,
      (Conflict.isUnexpectedInput ∘ Conflict.unexpectedInput definition call) argument = true :=
    fun _ _ => rfl
  have hm : ∀ parameter ∈ missing,
      ¬ (Conflict.isUnexpectedInput ∘ Conflict.missingInput definition call) parameter = true :=
    fun _ _ => Bool.false_ne_true
  rw [List.countP_eq_length.mpr hu, List.countP_eq_zero.mpr hm, Nat.add_zero]

theorem Node.WellFormed.isRequired_iff (h : definition.WellFormed) {parameter : Node}
    (hp : parameter ∈ definition.declaredInputs) :
    parameter.isRequired = true ↔ parameter.single? "value" = none := by
  simp [isRequired, h.kind_of_mem_declaredInputs hp]

theorem callReport_argumentConflicts (definition call : Node) (arguments : List Node) :
    CallReport definition call arguments (assignSlots definition.declaredInputs [] arguments)
      (argumentConflicts definition call arguments) := by
  have ha := assignment_assignSlots definition.declaredInputs arguments
  have hreported := Node.argumentConflicts_of_assignment call ha
  have hcount : (argumentConflicts definition call arguments).countP (·.isUnexpectedInput) =
      (unplaced arguments (assignSlots definition.declaredInputs [] arguments)).length := by
    rw [hreported, countP_isUnexpectedInput]
  have hplaced := length_unplaced ha.length_eq
  have huntaken := ha.length_add_untaken
  refine ⟨ha, fun _ ho => ho.eq_assignSlots, fun _ _ _ => ha.injective, hreported,
    fun hd _ => hd.isRequired_iff, ⟨by omega, by omega⟩, Node.argumentConflicts_positional⟩

/-- The conflict with another node in the place of the call. -/
def Conflict.withCall (call : Node) : Conflict → Conflict
  | .unexpectedInput definition _ input => .unexpectedInput definition call input
  | .missingInput definition _ input => .missingInput definition call input
  | conflict => conflict

theorem map_withCall_argumentConflicts (definition call other : Node) (arguments : List Node) :
    (argumentConflicts definition call arguments).map (Conflict.withCall other) =
      argumentConflicts definition other arguments := by
  rw [argumentConflicts, List.map_append, List.map_map, List.map_map]
  rfl

end Reports

namespace Globals

variable {globals : Globals} {scope : Scope} {node callee definition : Node}

theorem conflictsAt_of_resolved (hk : node.kind = .evaluate) (hf : node.single? "fun" = some callee)
    (hd : globals.definitionOf? scope callee = some definition) :
    globals.conflictsAt scope node =
      argumentConflicts definition node (node.elements "inputs") := by
  simp only [conflictsAt, hk, evaluateConflicts, hf, Option.bind_some, hd]

theorem conflictsAt_of_unresolved (hk : node.kind = .evaluate)
    (hf : node.single? "fun" = some callee) (hn : globals.definitionOf? scope callee = none) :
    globals.conflictsAt scope node = [] := by
  simp only [conflictsAt, hk, evaluateConflicts, hf, Option.bind_some, hn]

/-- A call of no known definition has no conflicts, and a call of a definition reports the
arguments and the parameters that the assignment leaves over. -/
theorem conflictsAt_evaluate (globals : Globals) (scope : Scope) (h : node.WellFormed)
    (hk : node.kind = .evaluate) :
    ∃ callee, node.single? "fun" = some callee ∧
      (globals.definitionOf? scope callee = none → globals.conflictsAt scope node = []) ∧
      ∀ definition, globals.definitionOf? scope callee = some definition →
        ∃ slots, CallReport definition node (node.elements "inputs") slots
          (globals.conflictsAt scope node) := by
  obtain ⟨callee, hf, _⟩ := h.exists_single?_of_kind hk "fun" .expression (by decide)
  refine ⟨callee, hf, fun hn => conflictsAt_of_unresolved hk hf hn, fun definition hd => ?_⟩
  rw [conflictsAt_of_resolved hk hf hd]
  exact ⟨_, callReport_argumentConflicts definition node _⟩

end Globals

section Mixed

def numberOf (id : Nat) (text : String) : Node :=
  .tree (id + 1) .numberLiteral [("number", .one (.token id .number text))]

def namedArgument (id : Nat) (name : String) (value : Node) : Node :=
  .tree (id + 2) .input
    [("name", .one (.token id .name name)), ("colon", .one (.token (id + 1) .bind ":")),
     ("value", .one value)]

def parameterOf (id : Nat) (names : List String) (value : Option Node) : Node :=
  .tree (id + 6) .bind
    [("names", .one (.tree (id + 4) .names
       [("names", .list (names.zipIdx.map fun (name, index) => .token (id + index) .name name))])),
     ("colon", .optional (value.map fun _ => .token (id + 5) .bind ":")),
     ("value", .optional value)]

/-- The function `f(a b, c: 1, d, e)`, whose first parameter has two names. -/
def fourParameters : Node :=
  .tree 40 .functionDefinition
    [("docs", .optional none),
     ("fun", .one (.token 34 .function "ƒ")),
     ("names", .one (.tree 36 .names [("names", .list [.token 35 .name "f"])])),
     ("open", .one (.token 37 .evalOpen "(")),
     ("inputs", .list
       [parameterOf 0 ["a", "b"] none, parameterOf 9 ["c"] (some (numberOf 7 "1")),
        parameterOf 16 ["d"] none, parameterOf 23 ["e"] none]),
     ("close", .one (.token 38 .evalClose ")")),
     ("expression", .optional none)]

def callWith (id : Nat) (callee : Node) (arguments : List Node) : Node :=
  .tree (id + 2) .evaluate
    [("fun", .one callee), ("open", .one (.token id .evalOpen "(")), ("inputs", .list arguments),
     ("close", .one (.token (id + 1) .evalClose ")"))]

/-- The call `f(d: 1, 2, b: 3, x: 4)`. -/
def mixedCall : Node :=
  callWith 60 fourParameters
    [namedArgument 43 "d" (numberOf 41 "1"), numberOf 46 "2",
     namedArgument 50 "b" (numberOf 48 "3"), namedArgument 55 "x" (numberOf 53 "4")]

/-- The name `b` selects the parameter that the second argument has taken, and `x` selects none. -/
theorem Globals.conflictsAt_evaluate_mixed :
    mixedCall.WellFormed ∧ mixedCall.kind = .evaluate ∧
      CallReport fourParameters mixedCall (mixedCall.elements "inputs")
        [some 2, some 0, none, none] ((ofProgram .empty).conflictsAt [] mixedCall) := by
  have hw : mixedCall.WellFormed := by decide +kernel
  obtain ⟨callee, hf, _, hd⟩ := conflictsAt_evaluate (ofProgram .empty) [] hw rfl
  have hc : callee = fourParameters := (Option.some.inj hf).symm
  obtain ⟨slots, hr⟩ := hd fourParameters (by rw [hc]; rfl)
  have hs : slots = [some 2, some 0, none, none] :=
    hr.assigned.eq_assignSlots.trans (by decide +kernel)
  exact ⟨hw, rfl, hs ▸ hr⟩

end Mixed

namespace Globals

variable {node : Node}

/-- An operator is judged as a call of its definition with the right operand as the one argument. -/
theorem conflictsAt_binaryEvaluate (globals : Globals) (scope : Scope) (h : node.WellFormed)
    (hk : node.kind = .binaryEvaluate) :
    ∃ operator right, node.single? "operator" = some operator ∧
      node.single? "right" = some right ∧
      (globals.operator? scope operator = none → globals.conflictsAt scope node = []) ∧
      ∀ definition, globals.operator? scope operator = some definition →
        ∀ (others : Globals) (around : Scope) (call callee : Node), call.kind = .evaluate →
          call.single? "fun" = some callee →
          others.definitionOf? around callee = some definition →
          call.elements "inputs" = [right] →
          globals.conflictsAt scope node =
            (others.conflictsAt around call).map (Conflict.withCall node) := by
  obtain ⟨operator, ho, _⟩ :=
    h.exists_single?_of_kind hk "operator" (.symbol .operator) (by decide)
  obtain ⟨right, hr, hi⟩ := exists_right h hk
  have hconflicts : globals.conflictsAt scope node = globals.binaryConflicts scope node := by
    simp only [conflictsAt, hk]
  rw [hconflicts, binaryConflicts_eq globals scope hr hi, ho, Option.bind_some]
  refine ⟨operator, right, rfl, hr, fun hn => by rw [hn], ?_⟩
  intro definition hd others around call callee hcall hf hc ha
  rw [hd, conflictsAt_of_resolved hcall hf hc, ha, map_withCall_argumentConflicts]

end Globals

/-- The operation `1 + 2`. -/
def sum : Node :=
  .tree 50 .binaryEvaluate
    [("left", .one (numberOf 41 "1")), ("operator", .one (.token 43 .operator "+")),
     ("right", .one (numberOf 44 "2"))]

/-- A scope in which `+` stands for the function of four parameters. -/
def sumScope : Scope :=
  [⟨[("+", .definition fourParameters)]⟩]

/-- The right operand is the one argument of the call, so that two required parameters are open. -/
theorem Globals.conflictsAt_binaryEvaluate_sum :
    sum.WellFormed ∧ sum.kind = .binaryEvaluate ∧
      (ofProgram .empty).conflictsAt sumScope sum =
        ((ofProgram .empty).conflictsAt [] (callWith 60 fourParameters [numberOf 44 "2"])).map
          (Conflict.withCall sum) ∧
      ((ofProgram .empty).conflictsAt sumScope sum).map Conflict.name =
        ["MissingInput", "MissingInput"] := by
  have hw : sum.WellFormed := by decide +kernel
  obtain ⟨operator, right, ho, hr, _, hd⟩ :=
    conflictsAt_binaryEvaluate (ofProgram .empty) sumScope hw rfl
  cases Option.some.inj ho
  cases Option.some.inj hr
  exact ⟨hw, rfl, hd fourParameters rfl (ofProgram .empty) [] _ fourParameters rfl rfl rfl rfl,
    by decide +kernel⟩

end ProgramTree
