import ProgramTree.Construction
import ProgramTree.Proofs.History

namespace ProgramTree

/-- A well-formed tree whose tokens have texts that their classes accept, or texts that were given
unchecked. -/
structure Node.Lawful (given : Symbol → String → Prop) (root : Node) : Prop where
  wellFormed : root.WellFormed
  spelled : ∀ node ∈ root.descendants, ∀ symbol text, node.symbol? = some symbol →
    node.text? = some text → symbol.accepts text = true ∨ given symbol text

/-- A history of lawful nodes. -/
structure Ledger (given : Symbol → String → Prop) (next : Nat) (nodes : List Node) : Prop where
  history : History next nodes
  lawful : ∀ node ∈ nodes, node.Lawful given

variable {given : Symbol → String → Prop}

theorem Node.Lawful.token {id : Nat} {symbol : Symbol} {text : String}
    (h : symbol.accepts text = true ∨ given symbol text) :
    (Node.token id symbol text).Lawful given := by
  refine ⟨.token .., fun node hn other content hs ht => ?_⟩
  have he : node = .token id symbol text := by
    simpa [Node.descendants_eq, Node.children, Node.fields] using hn
  subst he
  cases hs
  cases ht
  exact h

theorem Node.Lawful.tree {id : Nat} {kind : Kind} {fields : Fields} (hk : kind ≠ .token)
    (hf : kind.Fits fields)
    (hc : ∀ child ∈ (Node.tree id kind fields).children, child.Lawful given) :
    (Node.tree id kind fields).Lawful given := by
  refine ⟨.tree hk hf fun child h => (hc child h).wellFormed, fun node hn symbol text hs ht => ?_⟩
  rcases Node.mem_descendants.mp hn with rfl | ⟨child, h, hd⟩
  · cases hs
  · exact (hc child h).spelled node hd symbol text hs ht

namespace Ledger

variable {next : Nat} {nodes : List Node}

theorem start : Ledger given 0 [] :=
  ⟨.start, by simp⟩

theorem construct (h : Ledger given next nodes) {node : Node} (hid : node.id = next)
    (hc : ∀ child ∈ node.children, child ∈ nodes) (hn : node.Lawful given) :
    Ledger given (next + 1) (node :: nodes) :=
  ⟨h.history.construct hid hc, List.forall_mem_cons.mpr ⟨hn, h.lawful⟩⟩

end Ledger

namespace Construct

variable {ε α β : Type} {handles : List Node}

/-- Given handles of nodes made so far, the computation keeps the history lawful, whether it
answers or fails, and answers with nodes out of it. -/
def Grows (given : Symbol → String → Prop) (handles : List Node) (make : Construct ε α)
    (answer : α → List Node) : Prop :=
  ∀ next nodes, Ledger given next nodes → handles ⊆ nodes →
    ∃ more, nodes ⊆ more ∧
      match make next with
      | .ok a after => Ledger given after more ∧ answer a ⊆ more
      | .error _ after => Ledger given after more

namespace Grows

theorem pure {answer : α → List Node} {a : α} (h : answer a ⊆ handles) :
    Grows given handles (Pure.pure a : Construct ε α) answer :=
  fun _ nodes hl hh => ⟨nodes, List.Subset.refl _, hl, List.Subset.trans h hh⟩

theorem throw {answer : α → List Node} (error : ε) :
    Grows given handles (throw error : Construct ε α) answer :=
  fun _ nodes hl _ => ⟨nodes, List.Subset.refl _, hl⟩

theorem bind {make : Construct ε α} {then' : α → Construct ε β} {middle : α → List Node}
    {answer : β → List Node} (hm : Grows given handles make middle)
    (ht : ∀ a, Grows given (middle a ++ handles) (then' a) answer) :
    Grows given handles (make >>= then') answer := by
  intro next nodes hl hh
  obtain ⟨more, hsub, hmore⟩ := hm next nodes hl hh
  change ∃ more, nodes ⊆ more ∧ match EStateM.bind make then' next with
    | .ok a after => Ledger given after more ∧ answer a ⊆ more
    | .error _ after => Ledger given after more
  unfold EStateM.bind
  split at hmore
  next a after he =>
    have hhandles : middle a ++ handles ⊆ more :=
      List.append_subset.mpr ⟨hmore.2, List.Subset.trans hh hsub⟩
    obtain ⟨most, hsub', hmost⟩ := ht a after more hmore.1 hhandles
    exact ⟨most, List.Subset.trans hsub hsub', by simpa [he] using hmost⟩
  next error after he => exact ⟨more, hsub, by simpa [he] using hmore⟩

theorem ofExcept_bind {result : Except ε α} {then' : α → Construct ε β} {answer : β → List Node}
    (h : ∀ a, result = .ok a → Grows given handles (then' a) answer) :
    Grows given handles (MonadExcept.ofExcept result >>= then') answer := by
  cases result with
  | ok a => exact h a rfl
  | error e => exact throw e

theorem weaken {fewer : List Node} {make : Construct ε α} {answer : α → List Node}
    (h : Grows given fewer make answer) (hs : fewer ⊆ handles) :
    Grows given handles make answer :=
  fun next nodes hl hh => h next nodes hl (List.Subset.trans hs hh)

/-- A new node draws the next number. -/
theorem construct {create : Nat → Node} (hid : ∀ id, (create id).id = id)
    (hc : ∀ id, (create id).children ⊆ handles)
    (hl : ∀ id, (∀ child ∈ (create id).children, child.Lawful given) → (create id).Lawful given) :
    Grows given handles (do return create (← freshId) : Construct ε Node) ([·]) := by
  intro next nodes hledger hh
  have hchildren : ∀ child ∈ (create next).children, child ∈ nodes := fun _ h => hh (hc next h)
  have hlawful := hl next fun child h => hledger.lawful child (hchildren child h)
  exact ⟨create next :: nodes, List.subset_cons_self _ _,
    hledger.construct (hid next) hchildren hlawful, by simp⟩

theorem rawToken {symbol : Symbol} {text : String}
    (h : symbol.accepts text = true ∨ given symbol text) :
    Grows given handles (Node.rawToken symbol text : Construct ε Node) ([·]) :=
  construct (fun _ => rfl) (fun _ => by simp [Node.children, Node.fields]) fun _ _ => .token h

theorem mark {symbol : Symbol} (h : symbol.canonical.isSome = true) :
    Grows given handles (Node.mark symbol : Construct ε Node) ([·]) := by
  obtain ⟨text, ht⟩ := Option.isSome_iff_exists.mp h
  have haccepts := Symbol.accepts_canonical ht
  rw [Node.mark, ht]
  exact rawToken (.inl haccepts)

theorem ofText (symbol : Symbol) (text : String) :
    Grows given handles (Node.ofText symbol text) ([·]) := by
  unfold Node.ofText
  split
  next h => exact rawToken (.inl h)
  next => exact throw _

theorem ofSymbol (symbol : Symbol) : Grows given handles (Node.ofSymbol symbol) ([·]) := by
  unfold Node.ofSymbol
  split
  next text h => exact rawToken (.inl (Symbol.accepts_canonical h))
  next => exact throw _

theorem tree {kind : Kind} {fields : Fields} (hk : kind ≠ .token) (hf : kind.Fits fields)
    (hc : fields.flatMap (·.2.nodes) ⊆ handles) :
    Grows given handles (do return Node.tree (← freshId) kind fields : Construct ε Node) ([·]) :=
  construct (fun _ => rfl) (fun _ => hc) fun _ => .tree hk hf

theorem create {kind : Kind} {contents : List (Field Node)} (hk : kind ≠ .token)
    (hc : contents.flatMap Field.nodes ⊆ handles) :
    Grows given handles (Node.create kind contents) ([·]) := by
  refine ofExcept_bind fun _ hcheck => ?_
  refine tree hk (Kind.fits_named hcheck) ?_
  rwa [← List.flatMap_map, Kind.map_snd_named]

theorem duplicate {node : Node} (hn : node ∈ handles) :
    Grows given handles (node.duplicate : Construct ε Node) ([·]) := by
  intro next nodes hledger hh
  have hm : node ∈ nodes := hh hn
  have hlawful := hledger.lawful node hm
  have hchildren : node.children ⊆ nodes :=
    fun _ hc => hledger.history.mem_of_mem_children hm hc
  cases node with
  | token id symbol text =>
    have ht := hlawful.spelled _ (Node.mem_descendants_self _) symbol text rfl rfl
    have hgrows : Grows given nodes (Node.rawToken symbol text : Construct ε Node) ([·]) :=
      rawToken ht
    exact hgrows next nodes hledger (List.Subset.refl nodes)
  | tree id kind fields =>
    cases hlawful.wellFormed with
    | tree hk hf =>
      have hgrows : Grows given nodes
          (do return Node.tree (← freshId) kind fields : Construct ε Node) ([·]) :=
        tree hk hf hchildren
      exact hgrows next nodes hledger (List.Subset.refl nodes)

end Grows

end Construct

end ProgramTree
