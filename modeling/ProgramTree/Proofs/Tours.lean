import Mathlib.Logic.Function.Iterate
import ProgramTree.Proofs.Places

namespace ProgramTree.Node

section Tour

variable {σ : Type} (visit : σ → Node → σ × Bool)

mutual

/-- What a visitor is shown of a tree, in order, and its state in the end: the root first, and if
the visitor descends, the children one after the other. -/
def tour (state : σ) (root : Node) : List Node × σ :=
  match visit state root with
  | (next, true) =>
    let (seen, last) := tourAll next root.children
    (root :: seen, last)
  | (next, false) => ([root], next)
termination_by 2 * root.size
decreasing_by
  have := root.size_eq
  omega

def tourAll (state : σ) : List Node → List Node × σ
  | [] => ([], state)
  | node :: rest =>
    let (seen, next) := tour state node
    let (others, last) := tourAll next rest
    (seen ++ others, last)
-- The one more is for the call of `tour` on a list of one node.
termination_by nodes => 2 * total size nodes + 1
decreasing_by
  · rw [total_cons]
    omega
  · have := node.size_eq
    rw [total_cons]
    omega

end

/-- A visitor that also writes down what it is shown. -/
def recording (known : List Node × σ) (node : Node) : (List Node × σ) × Bool :=
  ((known.1 ++ [node], (visit known.2 node).1), (visit known.2 node).2)

/-- One round of a walk: the top of the stack is visited, and where the visitor descends, the
children take its place. -/
def round : σ × List Node → σ × List Node
  | (state, []) => (state, [])
  | (state, node :: rest) =>
    ((visit state node).1, if (visit state node).2 then node.children ++ rest else rest)

theorem tourAll_cons (state : σ) (node : Node) (rest : List Node) :
    tourAll visit state (node :: rest) =
      ((tour visit state node).1 ++ (tourAll visit (tour visit state node).2 rest).1,
        (tourAll visit (tour visit state node).2 rest).2) := by
  rw [tourAll]

theorem tourAll_append (state : σ) (first second : List Node) :
    tourAll visit state (first ++ second) =
      ((tourAll visit state first).1 ++ (tourAll visit (tourAll visit state first).2 second).1,
        (tourAll visit (tourAll visit state first).2 second).2) := by
  induction first generalizing state with
  | nil => simp [tourAll]
  | cons node rest ih => simp [tourAll_cons, ih]

theorem tourAll_singleton (state : σ) (node : Node) :
    tourAll visit state [node] = tour visit state node := by
  simp [tourAll]

/-- After a round what is left to be seen is the tour of the new stack. -/
theorem tourAll_round (state : σ) (node : Node) (rest : List Node) :
    tourAll visit state (node :: rest) =
      (node :: (tourAll visit (round visit (state, node :: rest)).1
          (round visit (state, node :: rest)).2).1,
        (tourAll visit (round visit (state, node :: rest)).1
          (round visit (state, node :: rest)).2).2) := by
  rw [tourAll_cons, tour, round]
  obtain ⟨next, descend⟩ := visit state node
  cases descend with
  | true => simp [tourAll_append]
  | false => simp

theorem walkStack_eq_tourAll (state : σ) (stack : List Node) :
    walkStack visit state stack = (tourAll visit state stack).2 := by
  fun_induction walkStack visit state stack with
  | case1 state => simp [tourAll]
  | case2 state node rest next descend hv ih =>
    rw [tourAll_round]
    simpa [round, hv] using ih

theorem walkStack_round (state : σ) (stack : List Node) :
    walkStack visit (round visit (state, stack)).1 (round visit (state, stack)).2 =
      walkStack visit state stack := by
  cases stack with
  | nil => rfl
  | cons node rest => rw [walkStack.eq_def visit state (node :: rest), round]

/-- A walk that stops after some rounds and is taken up again there is the same walk. -/
theorem walkStack_rounds (state : σ) (stack : List Node) (rounds : Nat) :
    walkStack visit ((round visit)^[rounds] (state, stack)).1
        ((round visit)^[rounds] (state, stack)).2 = walkStack visit state stack := by
  induction rounds with
  | zero => rfl
  | succ rounds ih => rw [Function.iterate_succ_apply', walkStack_round, ih]

/-- What a walk shows its visitor is the tour of the stack. -/
theorem walkStack_recording (known : List Node × σ) (stack : List Node) :
    walkStack (recording visit) known stack =
      (known.1 ++ (tourAll visit known.2 stack).1, (tourAll visit known.2 stack).2) := by
  fun_induction walkStack (recording visit) known stack with
  | case1 known => simp [tourAll]
  | case2 known node rest next descend hv ih =>
    obtain ⟨rfl, rfl⟩ := Prod.mk.inj hv
    rw [tourAll_round]
    simpa [round, recording] using ih

/-- As long as there is something left to be seen, some rounds show as many nodes of it. -/
theorem tourAll_rounds (state : σ) (stack : List Node) (rounds : Nat)
    (h : rounds ≤ (tourAll visit state stack).1.length) :
    tourAll visit ((round visit)^[rounds] (state, stack)).1
        ((round visit)^[rounds] (state, stack)).2 =
      ((tourAll visit state stack).1.drop rounds, (tourAll visit state stack).2) := by
  induction rounds generalizing state stack with
  | zero => rfl
  | succ rounds ih =>
    cases stack with
    | nil => simp [tourAll] at h
    | cons node rest =>
      -- The first round shows the node on top, the other rounds what is left then.
      rw [tourAll_round] at h ⊢
      rw [Function.iterate_succ_apply]
      exact ih _ _ (Nat.le_of_succ_le_succ h)

theorem stack_eq_nil_of_tourAll {state : σ} {stack : List Node}
    (h : (tourAll visit state stack).1 = []) : stack = [] := by
  cases stack with
  | nil => rfl
  | cons node rest =>
    rw [tourAll_round] at h
    cases h

/-- When all is seen, the stack is empty. -/
theorem rounds_length_tourAll (state : σ) (stack : List Node) :
    (round visit)^[(tourAll visit state stack).1.length] (state, stack) =
      ((tourAll visit state stack).2, []) := by
  have hleft := tourAll_rounds visit state stack _ (Nat.le_refl _)
  rw [List.drop_length] at hleft
  generalize (round visit)^[(tourAll visit state stack).1.length] (state, stack) = reached at hleft ⊢
  obtain ⟨last, rest⟩ := reached
  have hrest : rest = [] := stack_eq_nil_of_tourAll visit (congrArg Prod.fst hleft)
  subst hrest
  rw [tourAll] at hleft
  exact congrArg (·, []) (congrArg Prod.snd hleft)

theorem length_tourAll_le (state : σ) (stack : List Node) :
    (tourAll visit state stack).1.length ≤ total size stack := by
  fun_induction walkStack visit state stack with
  | case1 => simp [tourAll]
  | case2 state node rest next descend hv ih =>
    have hsize := node.size_eq
    have hround : total size (round visit (state, node :: rest)).2 + 1 ≤
        total size (node :: rest) := by
      simp only [round, total_cons]
      split
      · rw [total_append]
        omega
      · omega
    have hleft : (tourAll visit (round visit (state, node :: rest)).1
        (round visit (state, node :: rest)).2).1.length ≤
          total size (round visit (state, node :: rest)).2 := by
      simpa [round, hv] using ih
    rw [tourAll_round, List.length_cons]
    omega

/-- How a walk with a stack goes: what it shows is the tour of the tree, it goes on round by round,
and it ends after as many rounds as nodes are shown, and not before. -/
structure Walks (state : σ) (root : Node) : Prop where
  shown : walk (recording visit) ([], state) root = tour visit state root
  final : walk visit state root = (tour visit state root).2
  resumed : ∀ rounds, walkStack visit ((round visit)^[rounds] (state, [root])).1
    ((round visit)^[rounds] (state, [root])).2 = walk visit state root
  ended : (round visit)^[(tour visit state root).1.length] (state, [root]) =
    ((tour visit state root).2, [])
  going : ∀ rounds < (tour visit state root).1.length,
    ((round visit)^[rounds] (state, [root])).2 ≠ []
  bounded : (tour visit state root).1.length ≤ root.size

theorem walks (state : σ) (root : Node) : Walks visit state root where
  shown := by rw [walk, walkStack_recording, tourAll_singleton, List.nil_append]
  final := by rw [walk, walkStack_eq_tourAll, tourAll_singleton]
  resumed := walkStack_rounds visit state [root]
  ended := by rw [← tourAll_singleton, rounds_length_tourAll]
  going rounds hlt hnil := by
    rw [← tourAll_singleton] at hlt
    have hleft := tourAll_rounds visit state [root] rounds (Nat.le_of_lt hlt)
    rw [hnil, tourAll] at hleft
    have hdrop := (congrArg Prod.fst hleft).symm
    rw [List.drop_eq_nil_iff] at hdrop
    omega
  bounded := by
    have hle := length_tourAll_le visit state [root]
    rwa [tourAll_singleton, total_cons, total_nil, Nat.add_zero] at hle

end Tour

theorem tourAll_eq_flatMap {nodes : List Node}
    (h : ∀ node ∈ nodes, (tour (fun state _ => (state, true)) () node).1 = node.descendants) :
    (tourAll (fun state _ => (state, true)) () nodes).1 = nodes.flatMap descendants := by
  induction nodes with
  | nil => simp [tourAll]
  | cons node rest ih =>
    obtain ⟨hfirst, hrest⟩ := List.forall_mem_cons.mp h
    rw [tourAll_cons, List.flatMap_cons, ← ih hrest, hfirst]

/-- A visitor that descends everywhere is shown all nodes. -/
theorem tour_eq_descendants (root : Node) :
    (tour (fun state _ => (state, true)) () root).1 = root.descendants := by
  induction root using induction_children with
  | step root ih =>
    rw [tour, descendants_eq]
    exact congrArg (root :: ·) (tourAll_eq_flatMap ih)

/-- A walk with a stack is the recursive pre-order, whatever its visitor keeps in mind and wherever
it descends. So all nodes of a tree are listed from the root on, place by place. -/
theorem walk_preorder {σ : Type} (visit : σ → Node → σ × Bool) (state : σ) (root : Node) :
    Walks visit state root ∧
      root.descendants = (tour (fun state _ => (state, true)) () root).1 ∧
      (∃ places, root.HasPlaces places) ∧ (∃ rest, root.descendants = root :: rest) ∧
      root.descendants.length = root.size :=
  ⟨walks visit state root, root.tour_eq_descendants.symm, ⟨root.places, root.hasPlaces⟩,
    ⟨_, root.descendants_eq⟩, root.length_descendants⟩

end ProgramTree.Node
